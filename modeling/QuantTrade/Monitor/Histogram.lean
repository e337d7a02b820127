import Mathlib.Algebra.BigOperators.Group.Finset.Piecewise
import Mathlib.Algebra.BigOperators.Ring.Finset
import Mathlib.Data.Fintype.Basic
import Mathlib.Data.List.Sort
import QuantTrade.Library.Interleaving

/-!
# Histograms

`Histogram` of `src/monitor/metrics.cpp`, one atomic operation at a time, in any number of threads.
An observation increments the buckets whose boundary it does not exceed, one after the other, and
then the count; a scrape loads the count first and then the buckets.

The observations that are complete and those in progress are the calls of `observe` in the run
(`observed_run`), and a bucket counts those of them that are past it (`buckets_run`).  So a scrape
is well formed exactly when the observations it meets half way are outnumbered by those that belong
to the larger counter only (`scrapes_iff`).
-/

namespace QuantTrade

/-- `Histogram`. -/
structure Histogram where
  boundaries : List UInt64
  buckets : ℕ → ℕ
  count : ℕ
  sum : UInt64

namespace Histogram

/-- The constructor: it sorts the boundaries. -/
def new (boundaries : List UInt64) : Histogram where
  boundaries := boundaries.insertionSort (· ≤ ·)
  buckets _ := 0
  count := 0
  sum := 0

/-- `num_buckets_`. -/
def numBuckets (h : Histogram) : ℕ :=
  h.boundaries.length

/-- One round of the loop of `observe`. -/
def observeAt (h : Histogram) (v : UInt64) (i : ℕ) : Histogram :=
  if v ≤ h.boundaries.getD i 0 then
    { h with buckets := Function.update h.buckets i (h.buckets i + 1) }
  else h

/-! ## Threads -/

/-- A value that was loaded, and after how many steps of the run. -/
structure Load where
  value : ℕ
  tick : ℕ
  deriving DecidableEq, Repr

/-- What `to_prometheus_text` has loaded so far. -/
structure Scrape where
  total : Load
  sum : UInt64
  buckets : List Load
  deriving DecidableEq, Repr

/-- A line of the output for a bucket. -/
def bucketLine (name le : String) (value : ℕ) : String :=
  name ++ "_bucket\x7ble=\"" ++ le ++ "\"\x7d " ++ toString value ++ "\n"

/-- The text of a scrape. -/
def Scrape.text (name : String) (boundaries : List UInt64) (r : Scrape) : String :=
  String.join ((boundaries.zip r.buckets).map fun p =>
      bucketLine name (toString p.1.toNat) p.2.value) ++
    bucketLine name "+Inf" r.total.value ++
    name ++ "_sum " ++ toString r.sum.toNat ++ "\n" ++
    name ++ "_count " ++ toString r.total.value ++ "\n"

example : Scrape.text "h" [100, 500] ⟨⟨3, 4⟩, 1050, [⟨1, 6⟩, ⟨2, 7⟩]⟩ =
    "h_bucket\x7ble=\"100\"\x7d 1\n" ++ "h_bucket\x7ble=\"500\"\x7d 2\n" ++
      "h_bucket\x7ble=\"+Inf\"\x7d 3\n" ++ "h_sum 1050\n" ++ "h_count 3\n" := by
  decide +kernel

/-- The calls a thread can make. -/
inductive Call where
  | observe (v : UInt64)
  | toPrometheusText
  deriving DecidableEq, Repr

/-- Where a thread is, with the local variables it has there. -/
inductive Pc where
  /-- Not in a call; the next step begins one. -/
  | idle
  | observe (v : UInt64) (i : ℕ)
  | addSum (v : UInt64)
  | addCount (v : UInt64)
  | loadCount
  | loadSum (total : Load)
  | loadBucket (r : Scrape)
  deriving DecidableEq

/-- The histogram, the values of the observations that are complete, and the number of steps so
far. -/
structure Shared where
  histogram : Histogram
  observed : List UInt64
  ticks : ℕ

/-- The loop of `observe`. -/
def nextRound (h : Histogram) (v : UInt64) (i : ℕ) : Pc :=
  if i < h.numBuckets then .observe v i else .addSum v

/-- The loop of `to_prometheus_text`; it returns after the last bucket. -/
def nextLoad (h : Histogram) (r : Scrape) : Pc × Option Scrape :=
  if r.buckets.length < h.numBuckets then (.loadBucket r, none) else (.idle, some r)

/-- One atomic operation: the shared state after it, where the thread is then, and the scrape that
it returns. -/
def operate (s : Shared) (call : Call) : Pc → Shared × Pc × Option Scrape
  | .idle =>
    match call with
    | .observe v => (s, nextRound s.histogram v 0, none)
    | .toPrometheusText => (s, .loadCount, none)
  | .observe v i =>
    ({ s with histogram := s.histogram.observeAt v i }, nextRound s.histogram v (i + 1), none)
  | .addSum v =>
    ({ s with histogram := { s.histogram with sum := s.histogram.sum + v } }, .addCount v, none)
  | .addCount v =>
    ({ s with
      histogram := { s.histogram with count := s.histogram.count + 1 }
      observed := s.observed ++ [v] }, .idle, none)
  | .loadCount => (s, .loadSum ⟨s.histogram.count, s.ticks⟩, none)
  | .loadSum total => (s, nextLoad s.histogram ⟨total, s.histogram.sum, []⟩)
  | .loadBucket r =>
    (s, nextLoad s.histogram
      { r with buckets := r.buckets ++ [⟨s.histogram.buckets r.buckets.length, s.ticks⟩] })

variable {ι : Type}

/-- One step of a thread. -/
def act (_ : ι) (s : Shared) (pc : Pc) (call : Call) : Shared × Pc :=
  ({ (operate s call pc).1 with ticks := s.ticks + 1 }, (operate s call pc).2.1)

/-- A new histogram, and no thread in a call. -/
def start (boundaries : List UInt64) : Interleaving.Config Shared ι Pc where
  shared := ⟨new boundaries, [], 0⟩
  locals _ := .idle

/-- The scrape that a step returns. -/
def returned (c : Interleaving.Config Shared ι Pc) (p : ι × Call) : Option Scrape :=
  (operate c.shared p.2 (c.locals p.1)).2.2

/-! ## Where the observations are -/

/-- The thread is in a call of `observe`. -/
def Observing : Pc → Prop
  | .observe _ _ => True
  | .addSum _ => True
  | .addCount _ => True
  | _ => False

/-- The thread is in a call of `observe` and has incremented the bucket `k`. -/
def Passed (bs : List UInt64) (k : ℕ) : Pc → Prop
  | .observe v i => k < i ∧ v ≤ bs.getD k 0
  | .addSum v => v ≤ bs.getD k 0
  | .addCount v => v ≤ bs.getD k 0
  | _ => False

instance (bs : List UInt64) (k : ℕ) : DecidablePred (Passed bs k) := by
  intro pc
  cases pc <;> unfold Passed <;> infer_instance

/-- The observations that are complete and do not exceed the boundary `k`. -/
def observedLe (bs : List UInt64) (k : ℕ) (s : Shared) : ℕ :=
  s.observed.countP (· ≤ bs.getD k 0)

/-- The value of the observation that the thread is in. -/
def observing : Pc → Multiset UInt64
  | .observe v _ | .addSum v | .addCount v => {v}
  | _ => 0

/-- The value of the observation that a thread begins in a step. -/
def begun (pc : Pc) (call : Call) : List UInt64 :=
  match pc, call with
  | .idle, .observe v => [v]
  | _, _ => []

lemma observing_nextRound (h : Histogram) (v : UInt64) (i : ℕ) :
    observing (nextRound h v i) = {v} := by
  unfold nextRound
  split_ifs <;> rfl

lemma observing_nextLoad (h : Histogram) (r : Scrape) : observing (nextLoad h r).1 = 0 := by
  unfold nextLoad
  split_ifs <;> rfl

/-- An observation is in progress until it is complete. -/
lemma observed_act (t : ι) (s : Shared) (pc : Pc) (call : Call) :
    ((act t s pc call).1.observed : Multiset UInt64) + observing (act t s pc call).2 =
      s.observed + observing pc + begun pc call := by
  cases pc with
  | idle =>
    cases call with
    | observe v =>
      change (s.observed : Multiset UInt64) + observing (nextRound s.histogram v 0) =
        s.observed + 0 + {v}
      rw [observing_nextRound, add_zero]
    | toPrometheusText => exact (add_zero _).symm
  | observe v i =>
    change (s.observed : Multiset UInt64) + observing (nextRound s.histogram v (i + 1)) =
      s.observed + {v} + 0
    rw [observing_nextRound, add_zero]
  | addSum v => exact (add_zero _).symm
  | addCount v =>
    change ((s.observed ++ [v] : List UInt64) : Multiset UInt64) + 0 = s.observed + {v} + 0
    rw [← Multiset.coe_add, Multiset.coe_singleton]
  | loadCount => exact (add_zero _).symm
  | loadSum total =>
    change (s.observed : Multiset UInt64) + observing (nextLoad s.histogram _).1 =
      s.observed + 0 + 0
    rw [observing_nextLoad, add_zero, add_zero]
  | loadBucket r =>
    change (s.observed : Multiset UInt64) + observing (nextLoad s.histogram _).1 =
      s.observed + 0 + 0
    rw [observing_nextLoad, add_zero, add_zero]

/-- The boundaries do not change. -/
lemma boundaries_act (t : ι) (s : Shared) (pc : Pc) (call : Call) :
    (act t s pc call).1.histogram.boundaries = s.histogram.boundaries := by
  cases pc with
  | idle => cases call <;> rfl
  | observe v i =>
    change (s.histogram.observeAt v i).boundaries = _
    unfold observeAt
    split_ifs <;> rfl
  | _ => rfl

/-- The count is that of the observations that are complete. -/
lemma count_act (t : ι) {s : Shared} (h : s.histogram.count = s.observed.length) (pc : Pc)
    (call : Call) :
    (act t s pc call).1.histogram.count = (act t s pc call).1.observed.length := by
  cases pc with
  | idle => cases call <;> exact h
  | observe v i =>
    change (s.histogram.observeAt v i).count = _
    unfold observeAt
    split_ifs <;> exact h
  | addCount v =>
    change s.histogram.count + 1 = (s.observed ++ [v]).length
    rw [h, List.length_append, List.length_singleton]
  | _ => exact h

/-- How many observations of the thread the bucket `k` has: one or none. -/
def past (bs : List UInt64) (k : ℕ) (pc : Pc) : ℕ :=
  if Passed bs k pc then 1 else 0

/-- Whether an observation is past a bucket is decided by the round it is in. -/
lemma passed_nextRound {bs : List UInt64} {h : Histogram} (hbs : h.boundaries = bs) {k : ℕ}
    (hk : k < bs.length) (v : UInt64) (i : ℕ) :
    Passed bs k (nextRound h v i) ↔ k < i ∧ v ≤ bs.getD k 0 := by
  unfold nextRound numBuckets
  rw [hbs]
  split_ifs with hi
  · exact Iff.rfl
  · exact (and_iff_right (by omega)).symm

lemma past_nextRound {bs : List UInt64} {h : Histogram} (hbs : h.boundaries = bs) {k : ℕ}
    (hk : k < bs.length) (v : UInt64) (i : ℕ) :
    past bs k (nextRound h v i) = if k < i ∧ v ≤ bs.getD k 0 then 1 else 0 :=
  if_congr (passed_nextRound hbs hk v i) rfl rfl

/-- A round of the loop increments its bucket if the value does not exceed the boundary. -/
lemma buckets_observeAt (h : Histogram) (v : UInt64) (i k : ℕ) :
    (h.observeAt v i).buckets k =
      h.buckets k + if k = i ∧ v ≤ h.boundaries.getD k 0 then 1 else 0 := by
  unfold observeAt
  by_cases hk : k = i
  · subst hk
    split_ifs with hv hv' hv'
    · exact Function.update_self ..
    · exact absurd ⟨rfl, hv⟩ hv'
    · exact absurd hv'.2 hv
    · rfl
  · rw [if_neg (not_and_of_not_left _ hk), Nat.add_zero]
    split_ifs
    · exact Function.update_of_ne hk ..
    · rfl

/-- The loop of `to_prometheus_text` is no observation. -/
lemma past_nextLoad (bs : List UInt64) (k : ℕ) (h : Histogram) (r : Scrape) :
    past bs k (nextLoad h r).1 = 0 := by
  unfold nextLoad
  split_ifs <;> rfl

/-- No operation takes anything from a bucket. -/
lemma buckets_act_le (t : ι) (s : Shared) (pc : Pc) (call : Call) (k : ℕ) :
    s.histogram.buckets k ≤ (act t s pc call).1.histogram.buckets k := by
  cases pc with
  | idle => cases call <;> exact le_rfl
  | observe v i =>
    change _ ≤ (s.histogram.observeAt v i).buckets k
    rw [buckets_observeAt]
    exact Nat.le_add_right _ _
  | _ => exact le_rfl

/-- A thread accounts for what it does to a bucket. -/
lemma accounts_act (t : ι) {bs : List UInt64} {s : Shared} (hbs : s.histogram.boundaries = bs)
    {k : ℕ} (hk : k < bs.length) (pc : Pc) (call : Call) :
    (act t s pc call).1.histogram.buckets k + observedLe bs k s + past bs k pc =
      s.histogram.buckets k + observedLe bs k (act t s pc call).1 +
        past bs k (act t s pc call).2 := by
  cases pc with
  | idle =>
    cases call with
    | observe v =>
      change _ = _ + past bs k (nextRound s.histogram v 0)
      rw [past_nextRound hbs hk, if_neg fun h => absurd h.1 (Nat.not_lt_zero k)]
      rfl
    | toPrometheusText => rfl
  | observe v i =>
    change (s.histogram.observeAt v i).buckets k + observedLe bs k s + _ =
      _ + observedLe bs k s + past bs k (nextRound s.histogram v (i + 1))
    have hpast : past bs k (nextRound s.histogram v (i + 1)) =
        past bs k (.observe v i) + if k = i ∧ v ≤ bs.getD k 0 then 1 else 0 := by
      change _ = (if k < i ∧ v ≤ bs.getD k 0 then 1 else 0) + _
      rw [past_nextRound hbs hk]
      by_cases hv : v ≤ bs.getD k 0
      · simp only [hv, and_true]
        split_ifs <;> omega
      · simp only [hv, and_false, if_false]
    rw [buckets_observeAt, hbs, hpast]
    omega
  | addSum v => rfl
  | addCount v =>
    have hpast : past bs k (.addCount v) = if v ≤ bs.getD k 0 then 1 else 0 := rfl
    have hobserved : observedLe bs k (act t s (.addCount v) call).1 =
        observedLe bs k s + if v ≤ bs.getD k 0 then 1 else 0 := by
      change (s.observed ++ [v]).countP _ = _
      rw [List.countP_append, List.countP_singleton]
      simp [observedLe]
    have hidle : past bs k (act t s (.addCount v) call).2 = 0 := rfl
    rw [hpast, hobserved, hidle, add_zero, ← add_assoc]
    rfl
  | loadCount => rfl
  | loadSum total =>
    change _ = _ + past bs k (nextLoad s.histogram _).1
    rw [past_nextLoad]
    rfl
  | loadBucket r =>
    change _ = _ + past bs k (nextLoad s.histogram _).1
    rw [past_nextLoad]
    rfl

/-! ## What a scrape has loaded -/

/-- The values of a scrape are those of the states in which they were loaded, the count first and
the buckets in their order. -/
structure Loaded (hist : ℕ → Shared) (now : ℕ) (r : Scrape) : Prop where
  total_eq : r.total.value = (hist r.total.tick).histogram.count
  bucket_eq : ∀ k l, r.buckets[k]? = some l → l.value = (hist l.tick).histogram.buckets k
  total_le : ∀ l ∈ r.buckets, r.total.tick ≤ l.tick
  buckets_le : r.buckets.Pairwise fun l l' => l.tick ≤ l'.tick
  total_lt : r.total.tick < now
  buckets_lt : ∀ l ∈ r.buckets, l.tick < now

/-- What a thread in a scrape of a histogram with `n` buckets remembers. -/
def Remembers (hist : ℕ → Shared) (n now : ℕ) : Pc → Prop
  | .loadSum total => total.value = (hist total.tick).histogram.count ∧ total.tick < now
  | .loadBucket r => Loaded hist now r ∧ r.buckets.length < n
  | _ => True

lemma Loaded.mono {hist : ℕ → Shared} {now now' : ℕ} {r : Scrape} (h : Loaded hist now r)
    (hle : now ≤ now') : Loaded hist now' r where
  total_eq := h.total_eq
  bucket_eq := h.bucket_eq
  total_le := h.total_le
  buckets_le := h.buckets_le
  total_lt := lt_of_lt_of_le h.total_lt hle
  buckets_lt := fun l hl => lt_of_lt_of_le (h.buckets_lt l hl) hle

lemma Remembers.mono {hist : ℕ → Shared} {n now now' : ℕ} {pc : Pc}
    (h : Remembers hist n now pc) (hle : now ≤ now') : Remembers hist n now' pc := by
  cases pc with
  | loadSum total => exact ⟨h.1, lt_of_lt_of_le h.2 hle⟩
  | loadBucket r => exact ⟨h.1.mono hle, h.2⟩
  | _ => trivial

/-- The load of the next bucket. -/
lemma Loaded.push {hist : ℕ → Shared} {now : ℕ} {r : Scrape} (h : Loaded hist now r) :
    Loaded hist (now + 1)
      { r with
        buckets := r.buckets ++ [⟨(hist now).histogram.buckets r.buckets.length, now⟩] } := by
  refine ⟨h.total_eq, ?_, ?_, ?_, Nat.lt_succ_of_lt h.total_lt, ?_⟩
  · intro k l hl
    rcases lt_trichotomy k r.buckets.length with hk | rfl | hk
    · rw [List.getElem?_append_left hk] at hl
      exact h.bucket_eq k l hl
    · rw [List.getElem?_concat_length, Option.some.injEq] at hl
      rw [← hl]
    · rw [List.getElem?_eq_none (by rw [List.length_append, List.length_singleton]; omega)] at hl
      exact nomatch hl
  · intro l hl
    rcases List.mem_append.mp hl with hl | hl
    · exact h.total_le l hl
    · obtain rfl := List.mem_singleton.mp hl
      exact le_of_lt h.total_lt
  · refine List.pairwise_append.mpr ⟨h.buckets_le, List.pairwise_singleton _ _, ?_⟩
    intro l hl l' hl'
    obtain rfl := List.mem_singleton.mp hl'
    exact le_of_lt (h.buckets_lt l hl)
  · intro l hl
    rcases List.mem_append.mp hl with hl | hl
    · exact Nat.lt_succ_of_lt (h.buckets_lt l hl)
    · obtain rfl := List.mem_singleton.mp hl
      exact Nat.lt_succ_self now

/-- The loop goes on with what was loaded, or returns it with all buckets. -/
lemma loaded_nextLoad {hist : ℕ → Shared} {now : ℕ} {r : Scrape} (h : Loaded hist now r)
    {g : Histogram} (hr : r.buckets.length ≤ g.numBuckets) :
    Remembers hist g.numBuckets now (nextLoad g r).1 ∧
      ∀ r', (nextLoad g r).2 = some r' → Loaded hist now r' ∧ r'.buckets.length = g.numBuckets := by
  unfold nextLoad
  split_ifs with hlt
  · exact ⟨⟨h, hlt⟩, fun _ hr' => nomatch hr'⟩
  · refine ⟨trivial, fun r' hr' => ?_⟩
    obtain rfl := Option.some.inj hr'
    exact ⟨h, by omega⟩

lemma remembers_nextRound (hist : ℕ → Shared) (n now : ℕ) (h : Histogram) (v : UInt64) (i : ℕ) :
    Remembers hist n now (nextRound h v i) := by
  unfold nextRound
  split_ifs <;> trivial

/-- A step gives a thread what it remembers next, and what it returns. -/
lemma remembers_operate {hist : ℕ → Shared} {s : Shared} (hs : hist s.ticks = s) {pc : Pc}
    (h : Remembers hist s.histogram.numBuckets s.ticks pc) (call : Call) :
    Remembers hist s.histogram.numBuckets (s.ticks + 1) (operate s call pc).2.1 ∧
      ∀ r, (operate s call pc).2.2 = some r →
        Loaded hist (s.ticks + 1) r ∧ r.buckets.length = s.histogram.numBuckets := by
  cases pc with
  | idle =>
    cases call with
    | observe v => exact ⟨remembers_nextRound .., fun _ hr => nomatch hr⟩
    | toPrometheusText => exact ⟨trivial, fun _ hr => nomatch hr⟩
  | observe v i => exact ⟨remembers_nextRound .., fun _ hr => nomatch hr⟩
  | addSum v => exact ⟨trivial, fun _ hr => nomatch hr⟩
  | addCount v => exact ⟨trivial, fun _ hr => nomatch hr⟩
  | loadCount =>
    refine ⟨⟨?_, Nat.lt_succ_self _⟩, fun _ hr => nomatch hr⟩
    change s.histogram.count = (hist s.ticks).histogram.count
    rw [hs]
  | loadSum total =>
    have hloaded : Loaded hist (s.ticks + 1) ⟨total, s.histogram.sum, []⟩ :=
      ⟨h.1, fun _ _ hl => absurd hl (by simp), fun _ hl => absurd hl List.not_mem_nil,
        List.Pairwise.nil, Nat.lt_succ_of_lt h.2, fun _ hl => absurd hl List.not_mem_nil⟩
    exact loaded_nextLoad hloaded (Nat.zero_le _)
  | loadBucket r =>
    have hloaded := h.1.push
    rw [hs] at hloaded
    refine loaded_nextLoad hloaded ?_
    rw [List.length_append, List.length_singleton]
    exact h.2

/-! ## Well-formed scrapes -/

/-- The buckets do not decrease with their boundaries, and none of them exceeds the count. -/
structure Scrape.WellFormed (r : Scrape) : Prop where
  nondecreasing : (r.buckets.map Load.value).Pairwise (· ≤ ·)
  le_total : ∀ l ∈ r.buckets, l.value ≤ r.total.value

/-- It is enough to compare neighbours, and the last bucket with the count. -/
lemma wellFormed_iff (r : Scrape) :
    r.WellFormed ↔
      (∀ k l l', r.buckets[k]? = some l → r.buckets[k + 1]? = some l' → l.value ≤ l'.value) ∧
        ∀ l, r.buckets.getLast? = some l → l.value ≤ r.total.value := by
  constructor
  · intro h
    refine ⟨?_, fun l hl => h.le_total l (List.mem_of_getLast? hl)⟩
    intro k l l' hl hl'
    obtain ⟨hk, rfl⟩ := List.getElem?_eq_some_iff.mp hl
    obtain ⟨hk', rfl⟩ := List.getElem?_eq_some_iff.mp hl'
    have hle := List.pairwise_iff_getElem.mp h.nondecreasing k (k + 1) (by simpa) (by simpa)
      (Nat.lt_succ_self k)
    simpa using hle
  · rintro ⟨hnext, hlast⟩
    have hsorted : (r.buckets.map Load.value).Pairwise (· ≤ ·) := by
      rw [← List.isChain_iff_pairwise, List.isChain_iff_getElem]
      intro k hk
      rw [List.length_map] at hk
      have hle := hnext k _ _ (List.getElem?_eq_getElem (by omega)) (List.getElem?_eq_getElem hk)
      simpa using hle
    refine ⟨hsorted, fun l hl => ?_⟩
    have hne : r.buckets ≠ [] := List.ne_nil_of_mem hl
    refine le_trans ?_ (hlast _ (List.getLast?_eq_getLast_of_ne_nil hne))
    obtain ⟨k, hk, rfl⟩ := List.getElem_of_mem hl
    rw [List.getLast_eq_getElem]
    rcases Nat.lt_or_ge k (r.buckets.length - 1) with hlt | hge
    · have hle := List.pairwise_iff_getElem.mp hsorted k (r.buckets.length - 1) (by simpa)
        (by rw [List.length_map]; omega) hlt
      simpa using hle
    · exact le_of_eq (congrArg Load.value (by congr 1; omega))

section Counting

variable [Fintype ι]

/-- The observations that have incremented the bucket `k`, but not yet the next one. -/
def stalled (bs : List UInt64) (k : ℕ) (c : Interleaving.Config Shared ι Pc) : ℕ :=
  (Finset.univ.filter fun t => Passed bs k (c.locals t) ∧ ¬Passed bs (k + 1) (c.locals t)).card

/-- The observations between the two boundaries, which increment the bucket `k + 1` only: those that
are complete and those that have incremented it. -/
def ahead (bs : List UInt64) (k : ℕ) (c : Interleaving.Config Shared ι Pc) : ℕ :=
  c.shared.observed.countP (fun v => bs.getD k 0 < v ∧ v ≤ bs.getD (k + 1) 0) +
    (Finset.univ.filter fun t => Passed bs (k + 1) (c.locals t) ∧ ¬Passed bs k (c.locals t)).card

/-- The observations that have incremented the last bucket, but not yet the count. -/
def uncounted (bs : List UInt64) (c : Interleaving.Config Shared ι Pc) : ℕ :=
  (Finset.univ.filter fun t => Passed bs (bs.length - 1) (c.locals t)).card

/-- The observations above the last boundary that are complete. -/
def above (bs : List UInt64) (c : Interleaving.Config Shared ι Pc) : ℕ :=
  c.shared.observed.countP (bs.getD (bs.length - 1) 0 < ·)

/-- How often the bucket `k` was incremented from one state of a run to a later one. -/
def raised (k : ℕ) (c c' : Interleaving.Config Shared ι Pc) : ℕ :=
  c'.shared.histogram.buckets k - c.shared.histogram.buckets k

/-- The observations that a scrape meets half way do not outnumber those that belong to the larger
counter only: when it loads a bucket, those between the bucket before and this one, less what has
been added to the former since; and when it loads the count, those between the last bucket and the
count, with what is added to the bucket before the scrape loads it. -/
structure Outnumbered (bs : List UInt64) (c : ℕ → Interleaving.Config Shared ι Pc) (r : Scrape) :
    Prop where
  buckets : ∀ k l l', r.buckets[k]? = some l → r.buckets[k + 1]? = some l' →
    stalled bs k (c l'.tick) ≤ ahead bs k (c l'.tick) + raised k (c l.tick) (c l'.tick)
  total : ∀ l, r.buckets.getLast? = some l →
    uncounted bs (c r.total.tick) + raised (bs.length - 1) (c r.total.tick) (c l.tick) ≤
      above bs (c r.total.tick)

/-- The observations up to a boundary are those up to a smaller one and those between. -/
lemma countP_between (l : List UInt64) {a b : UInt64} (hab : a ≤ b) :
    l.countP (· ≤ b) = l.countP (· ≤ a) + l.countP (fun v => a < v ∧ v ≤ b) := by
  induction l with
  | nil => rfl
  | cons v l ih =>
    rw [UInt64.le_iff_toNat_le] at hab
    simp only [List.countP_cons, decide_eq_true_eq, UInt64.le_iff_toNat_le,
      UInt64.lt_iff_toNat_lt] at ih ⊢
    rw [ih]
    split_ifs <;> omega

/-- All observations are those up to a boundary and those above. -/
lemma length_eq_countP (l : List UInt64) (a : UInt64) :
    l.length = l.countP (· ≤ a) + l.countP (a < ·) := by
  induction l with
  | nil => rfl
  | cons v l ih =>
    simp only [List.length_cons, List.countP_cons, decide_eq_true_eq, UInt64.le_iff_toNat_le,
      UInt64.lt_iff_toNat_lt] at ih ⊢
    rw [ih]
    split_ifs <;> omega

/-- The threads past one bucket and those past the other differ by those that are past one only. -/
lemma sum_past (bs : List UInt64) (k k' : ℕ) (c : Interleaving.Config Shared ι Pc) :
    ∑ t, past bs k (c.locals t) +
        (Finset.univ.filter fun t => Passed bs k' (c.locals t) ∧ ¬Passed bs k (c.locals t)).card =
      ∑ t, past bs k' (c.locals t) +
        (Finset.univ.filter fun t =>
          Passed bs k (c.locals t) ∧ ¬Passed bs k' (c.locals t)).card := by
  rw [Finset.card_filter, Finset.card_filter, ← Finset.sum_add_distrib, ← Finset.sum_add_distrib]
  apply Finset.sum_congr rfl
  intro t _
  unfold past
  by_cases h : Passed bs k (c.locals t) <;> by_cases h' : Passed bs k' (c.locals t) <;>
    simp [h, h']

end Counting

/-! ## Runs -/

/-- What a run keeps of the shared state. -/
structure Counts (bs : List UInt64) (s : Shared) : Prop where
  boundaries_eq : s.histogram.boundaries = bs
  count_eq : s.histogram.count = s.observed.length

lemma counts_act {bs : List UInt64} {s : Shared} (h : Counts bs s) (t : ι) (pc : Pc) (call : Call) :
    Counts bs (act t s pc call).1 :=
  ⟨(boundaries_act t s pc call).trans h.boundaries_eq, count_act t h.count_eq pc call⟩

section Runs

variable [DecidableEq ι]

lemma counts_run (boundaries : List UInt64) (steps : List (ι × Call)) :
    Counts (new boundaries).boundaries
      (Transition.run (Interleaving.step act) (start boundaries) steps).shared := by
  refine Transition.invariant_run_of_step
    (P := fun c : Interleaving.Config Shared ι Pc => Counts (new boundaries).boundaries c.shared)
    ?_ ⟨rfl, rfl⟩ steps
  intro c p hc
  exact counts_act hc p.1 _ p.2

/-- **Observations.**  In every run the values of the observations that are complete, and of those
in progress, are the arguments of the calls of `observe` that the threads began. -/
theorem observed_run [Fintype ι] (boundaries : List UInt64) (steps : List (ι × Call)) :
    let c := Transition.run (Interleaving.step act) (start boundaries) steps
    (c.shared.observed : Multiset UInt64) + ∑ t, observing (c.locals t) =
      Transition.observe (Interleaving.step act) (fun c p => begun (c.locals p.1) p.2)
        (start boundaries) steps := by
  refine Transition.invariant_observe
    (P := fun (c : Interleaving.Config Shared ι Pc) (seen : List UInt64) =>
      Interleaving.total (fun s => (s.observed : Multiset UInt64)) observing c = seen) ?_ ?_ steps
  · rintro c seen ⟨t, call⟩ hseen
    obtain ⟨rest, hbefore, hafter⟩ := Interleaving.total_step act
      (fun s => (s.observed : Multiset UInt64)) observing c t call
    rw [hafter, observed_act, ← Multiset.coe_add, ← hseen, hbefore]
    exact add_right_comm _ _ _
  · simp [Interleaving.total, start, observing]

/-- **Buckets.**  In every run a bucket counts the observations that are complete and do not exceed
its boundary, and those of the threads that have incremented it. -/
theorem buckets_run [Fintype ι] (boundaries : List UInt64) (steps : List (ι × Call)) {k : ℕ}
    (hk : k < (new boundaries).boundaries.length) :
    let c := Transition.run (Interleaving.step act) (start boundaries) steps
    c.shared.histogram.buckets k = observedLe (new boundaries).boundaries k c.shared +
      ∑ t, past (new boundaries).boundaries k (c.locals t) := by
  intro c
  let share (s : Shared) : ℤ :=
    s.histogram.buckets k - observedLe (new boundaries).boundaries k s
  let owed (pc : Pc) : ℤ := -past (new boundaries).boundaries k pc
  have htotal : Counts (new boundaries).boundaries c.shared ∧
      Interleaving.total share owed c = 0 := by
    refine Transition.invariant_run_of_step (P := fun c : Interleaving.Config Shared ι Pc =>
      Counts (new boundaries).boundaries c.shared ∧ Interleaving.total share owed c = 0) ?_ ?_ steps
    · rintro c ⟨t, call⟩ ⟨hcounts, hzero⟩
      refine ⟨counts_act hcounts t _ call, ?_⟩
      rw [Interleaving.total_step_eq act, hzero]
      have haccounts := accounts_act t hcounts.boundaries_eq hk (c.locals t) call
      simp only [share, owed]
      omega
    · refine ⟨⟨rfl, rfl⟩, ?_⟩
      simp [Interleaving.total, share, owed, start, new, observedLe, past, Passed]
  have hzero := htotal.2
  simp only [Interleaving.total, share, owed, Finset.sum_neg_distrib, ← Nat.cast_sum] at hzero
  omega

/-- The state of a run after its first steps. -/
def stateAt (boundaries : List UInt64) (steps : List (ι × Call)) (j : ℕ) :
    Interleaving.Config Shared ι Pc :=
  Transition.run (Interleaving.step act) (start boundaries) (steps.take j)

variable {boundaries : List UInt64} {steps : List (ι × Call)} {j : ℕ}

lemma stateAt_succ {p : ι × Call} (hp : steps[j]? = some p) :
    stateAt boundaries steps (j + 1) =
      Interleaving.step act (stateAt boundaries steps j) p := by
  rw [stateAt, List.take_add_one, hp, Option.toList_some, Transition.run_concat]
  rfl

variable (boundaries steps) in
lemma counts_stateAt (j : ℕ) :
    Counts (new boundaries).boundaries (stateAt boundaries steps j).shared :=
  counts_run boundaries (steps.take j)

variable (boundaries steps) in
lemma numBuckets_stateAt (j : ℕ) :
    (stateAt boundaries steps j).shared.histogram.numBuckets =
      (new boundaries).boundaries.length := by
  rw [numBuckets, (counts_stateAt boundaries steps j).boundaries_eq]

variable (boundaries steps) in
lemma ticks_stateAt (hj : j ≤ steps.length) : (stateAt boundaries steps j).shared.ticks = j := by
  induction j with
  | zero => rfl
  | succ j ih =>
    rw [stateAt_succ (List.getElem?_eq_getElem hj)]
    exact congrArg (· + 1) (ih (Nat.le_of_succ_le hj))

/-- A step of a run gives its thread what it remembers next, and what it returns. -/
lemma remembers_step {p : ι × Call} (hp : steps[j]? = some p)
    (h : Remembers (fun i => (stateAt boundaries steps i).shared) (new boundaries).boundaries.length
      j ((stateAt boundaries steps j).locals p.1)) :
    Remembers (fun i => (stateAt boundaries steps i).shared) (new boundaries).boundaries.length
        (j + 1) ((stateAt boundaries steps (j + 1)).locals p.1) ∧
      ∀ r, returned (stateAt boundaries steps j) p = some r →
        Loaded (fun i => (stateAt boundaries steps i).shared) (j + 1) r ∧
          r.buckets.length = (new boundaries).boundaries.length := by
  have hticks : (stateAt boundaries steps j).shared.ticks = j :=
    ticks_stateAt boundaries steps (le_of_lt (List.getElem?_eq_some_iff.mp hp).1)
  have hbuckets := numBuckets_stateAt boundaries steps j
  have hnow : (fun i => (stateAt boundaries steps i).shared)
      (stateAt boundaries steps j).shared.ticks = (stateAt boundaries steps j).shared := by
    rw [hticks]
  have hoperate := remembers_operate hnow (by rwa [hticks, hbuckets]) p.2
  rw [hticks, hbuckets] at hoperate
  refine ⟨?_, hoperate.2⟩
  rw [stateAt_succ hp, Interleaving.locals_step_self]
  exact hoperate.1

/-- What the threads in a scrape remember are values of earlier states. -/
lemma remembers_stateAt (hj : j ≤ steps.length) (t : ι) :
    Remembers (fun i => (stateAt boundaries steps i).shared) (new boundaries).boundaries.length j
      ((stateAt boundaries steps j).locals t) := by
  induction j generalizing t with
  | zero => trivial
  | succ j ih =>
    have hp : steps[j]? = some steps[j] := List.getElem?_eq_getElem hj
    by_cases ht : t = steps[j].1
    · subst ht
      exact (remembers_step hp (ih (Nat.le_of_succ_le hj) _)).1
    · rw [stateAt_succ hp, Interleaving.locals_step_of_ne act _ ht]
      exact (ih (Nat.le_of_succ_le hj) t).mono (Nat.le_succ j)

/-- A scrape that is returned consists of values of earlier states. -/
lemma loaded_of_returned {p : ι × Call} (hp : steps[j]? = some p) {r : Scrape}
    (hr : returned (stateAt boundaries steps j) p = some r) :
    Loaded (fun i => (stateAt boundaries steps i).shared) (j + 1) r ∧
      r.buckets.length = (new boundaries).boundaries.length :=
  (remembers_step hp (remembers_stateAt (le_of_lt (List.getElem?_eq_some_iff.mp hp).1) p.1)).2 r hr

variable (boundaries steps) in
/-- Buckets only grow. -/
lemma buckets_stateAt_mono (k : ℕ) :
    Monotone fun j => (stateAt boundaries steps j).shared.histogram.buckets k := by
  apply monotone_nat_of_le_succ
  intro j
  cases hp : steps[j]? with
  | none =>
    have hlength : steps.length ≤ j := List.getElem?_eq_none_iff.mp hp
    rw [stateAt, stateAt, List.take_of_length_le hlength, List.take_of_length_le (by omega)]
  | some p =>
    rw [stateAt_succ hp]
    exact buckets_act_le p.1 _ _ p.2 k

section Scrapes

variable [Fintype ι]

variable (boundaries steps) in
lemma buckets_stateAt (j : ℕ) {k : ℕ} (hk : k < (new boundaries).boundaries.length) :
    (stateAt boundaries steps j).shared.histogram.buckets k =
      observedLe (new boundaries).boundaries k (stateAt boundaries steps j).shared +
        ∑ t, past (new boundaries).boundaries k ((stateAt boundaries steps j).locals t) :=
  buckets_run boundaries (steps.take j) hk

variable (boundaries steps) in
/-- The difference of a bucket and the one before. -/
lemma buckets_add_stalled (j : ℕ) {k : ℕ} (hk : k + 1 < (new boundaries).boundaries.length) :
    (stateAt boundaries steps j).shared.histogram.buckets (k + 1) +
        stalled (new boundaries).boundaries k (stateAt boundaries steps j) =
      (stateAt boundaries steps j).shared.histogram.buckets k +
        ahead (new boundaries).boundaries k (stateAt boundaries steps j) := by
  have hsorted := List.pairwise_iff_getElem.mp
    (List.pairwise_insertionSort (· ≤ ·) boundaries) k (k + 1) (by exact Nat.lt_of_succ_lt hk) hk
    (Nat.lt_succ_self k)
  have hle : (new boundaries).boundaries.getD k 0 ≤ (new boundaries).boundaries.getD (k + 1) 0 := by
    rw [List.getD_eq_getElem?_getD, List.getD_eq_getElem?_getD, List.getElem?_eq_getElem hk,
      List.getElem?_eq_getElem (Nat.lt_of_succ_lt hk)]
    exact hsorted
  have hobserved := countP_between (stateAt boundaries steps j).shared.observed hle
  have hthreads := sum_past (new boundaries).boundaries (k + 1) k (stateAt boundaries steps j)
  rw [buckets_stateAt boundaries steps j hk,
    buckets_stateAt boundaries steps j (Nat.lt_of_succ_lt hk)]
  unfold observedLe stalled ahead
  omega

variable (boundaries steps) in
/-- The difference of the count and the last bucket. -/
lemma count_add_uncounted (j : ℕ) (hn : 0 < (new boundaries).boundaries.length) :
    (stateAt boundaries steps j).shared.histogram.count +
        uncounted (new boundaries).boundaries (stateAt boundaries steps j) =
      (stateAt boundaries steps j).shared.histogram.buckets
          ((new boundaries).boundaries.length - 1) +
        above (new boundaries).boundaries (stateAt boundaries steps j) := by
  have hobserved := length_eq_countP (stateAt boundaries steps j).shared.observed
    ((new boundaries).boundaries.getD ((new boundaries).boundaries.length - 1) 0)
  rw [buckets_stateAt boundaries steps j (by omega), (counts_stateAt boundaries steps j).count_eq,
    hobserved, uncounted, Finset.card_filter]
  unfold observedLe above past
  omega

/-- When no observation is in progress, a bucket counts the observations up to its boundary. -/
lemma buckets_of_quiet (j : ℕ) (hquiet : ∀ t, ¬Observing ((stateAt boundaries steps j).locals t))
    {k : ℕ} (hk : k < (new boundaries).boundaries.length) :
    (stateAt boundaries steps j).shared.histogram.buckets k =
      observedLe (new boundaries).boundaries k (stateAt boundaries steps j).shared := by
  rw [buckets_stateAt boundaries steps j hk, Nat.add_eq_left]
  apply Finset.sum_eq_zero
  intro t _
  have ht := hquiet t
  generalize (stateAt boundaries steps j).locals t = pc at ht ⊢
  cases pc with
  | observe v i => exact absurd trivial ht
  | addSum v => exact absurd trivial ht
  | addCount v => exact absurd trivial ht
  | _ => rfl

/-- A scrape that is returned is well formed exactly when the observations that it meets half way
are outnumbered. -/
lemma wellFormed_iff_outnumbered {p : ι × Call} (hp : steps[j]? = some p) {r : Scrape}
    (hr : returned (stateAt boundaries steps j) p = some r) :
    r.WellFormed ↔ Outnumbered (new boundaries).boundaries (stateAt boundaries steps) r := by
  obtain ⟨hloaded, hlength⟩ := loaded_of_returned hp hr
  have hnext : ∀ k l l', r.buckets[k]? = some l → r.buckets[k + 1]? = some l' →
      (l.value ≤ l'.value ↔
        stalled (new boundaries).boundaries k (stateAt boundaries steps l'.tick) ≤
          ahead (new boundaries).boundaries k (stateAt boundaries steps l'.tick) +
            raised k (stateAt boundaries steps l.tick) (stateAt boundaries steps l'.tick)) := by
    intro k l l' hl hl'
    obtain ⟨hk, hgetl⟩ := List.getElem?_eq_some_iff.mp hl
    obtain ⟨hk', hgetl'⟩ := List.getElem?_eq_some_iff.mp hl'
    have hticks : l.tick ≤ l'.tick := by
      rw [← hgetl, ← hgetl']
      exact List.pairwise_iff_getElem.mp hloaded.buckets_le k (k + 1) hk hk' (Nat.lt_succ_self k)
    have hmono : (stateAt boundaries steps l.tick).shared.histogram.buckets k ≤
        (stateAt boundaries steps l'.tick).shared.histogram.buckets k :=
      buckets_stateAt_mono boundaries steps k hticks
    have haccounts := buckets_add_stalled boundaries steps l'.tick (hlength ▸ hk')
    rw [hloaded.bucket_eq k l hl, hloaded.bucket_eq (k + 1) l' hl', raised]
    omega
  have hlast : ∀ l, r.buckets.getLast? = some l → (l.value ≤ r.total.value ↔
      uncounted (new boundaries).boundaries (stateAt boundaries steps r.total.tick) +
          raised ((new boundaries).boundaries.length - 1) (stateAt boundaries steps r.total.tick)
            (stateAt boundaries steps l.tick) ≤
        above (new boundaries).boundaries (stateAt boundaries steps r.total.tick)) := by
    intro l hl
    have hmem : l ∈ r.buckets := List.mem_of_getLast? hl
    have hn : 0 < (new boundaries).boundaries.length :=
      hlength ▸ List.length_pos_of_mem hmem
    have hmono := buckets_stateAt_mono boundaries steps
      ((new boundaries).boundaries.length - 1) (hloaded.total_le l hmem)
    have haccounts := count_add_uncounted boundaries steps r.total.tick hn
    rw [List.getLast?_eq_getElem?, hlength] at hl
    rw [hloaded.bucket_eq _ l hl, hloaded.total_eq, raised]
    dsimp only at hmono ⊢
    omega
  rw [wellFormed_iff]
  constructor
  · rintro ⟨hbuckets, htotal⟩
    exact ⟨fun k l l' hl hl' => (hnext k l l' hl hl').mp (hbuckets k l l' hl hl'),
      fun l hl => (hlast l hl).mp (htotal l hl)⟩
  · rintro ⟨hbuckets, htotal⟩
    exact ⟨fun k l l' hl hl' => (hnext k l l' hl hl').mpr (hbuckets k l l' hl hl'),
      fun l hl => (hlast l hl).mpr (htotal l hl)⟩

/-- **Scrapes.**  In every interleaving of observations and scrapes: a scrape that is returned has
all the buckets, and it is well formed exactly when the observations that it meets half way are
outnumbered.  When no observation is in progress, each bucket is the number of observations up to
its boundary; so it is in a scrape that loads it then. -/
theorem scrapes_iff (boundaries : List UInt64) (steps : List (ι × Call)) :
    let c := stateAt boundaries steps
    let bs := (new boundaries).boundaries
    (∀ j p r, steps[j]? = some p → returned (c j) p = some r →
      r.buckets.length = bs.length ∧ (r.WellFormed ↔ Outnumbered bs c r)) ∧
    (∀ j, (∀ t, ¬Observing ((c j).locals t)) → ∀ k, k < bs.length →
      (c j).shared.histogram.buckets k = (c j).shared.observed.countP (· ≤ bs.getD k 0)) ∧
    ∀ j p r, steps[j]? = some p → returned (c j) p = some r →
      ∀ k l, r.buckets[k]? = some l → (∀ t, ¬Observing ((c l.tick).locals t)) →
        l.value = (c l.tick).shared.observed.countP (· ≤ bs.getD k 0) := by
  intro c bs
  refine ⟨?_, fun j hquiet k hk => buckets_of_quiet j hquiet hk, ?_⟩
  · intro j p r hp hr
    exact ⟨(loaded_of_returned hp hr).2, wellFormed_iff_outnumbered hp hr⟩
  · intro j p r hp hr k l hl hquiet
    obtain ⟨hloaded, hlength⟩ := loaded_of_returned hp hr
    have hk : k < bs.length := hlength ▸ (List.getElem?_eq_some_iff.mp hl).1
    rw [hloaded.bucket_eq k l hl]
    exact buckets_of_quiet l.tick hquiet hk

/-- A scrape that loads the count, an observation that increments the bucket, and the scrape that
loads it. -/
def earlyCount : List (Bool × Call) :=
  [(false, .toPrometheusText), (false, .toPrometheusText), (false, .toPrometheusText),
    (true, .observe 5), (true, .observe 5), (false, .toPrometheusText)]

/-- The bucket is then larger than the count. -/
theorem not_wellFormed_earlyCount :
    ¬∀ (boundaries : List UInt64) (steps : List (Bool × Call)) j p r, steps[j]? = some p →
      returned (stateAt boundaries steps j) p = some r → r.WellFormed := by
  intro hclaim
  have hformed := hclaim [10] earlyCount 5 (false, .toPrometheusText) ⟨⟨0, 1⟩, 0, [⟨1, 5⟩]⟩ rfl
    (by decide +kernel)
  exact absurd (hformed.le_total ⟨1, 5⟩ (List.mem_singleton_self _)) (by decide)

end Scrapes

end Runs

end Histogram

end QuantTrade
