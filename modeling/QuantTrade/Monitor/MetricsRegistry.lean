import Mathlib.Data.List.DropRight
import Mathlib.Data.List.Nodup
import Mathlib.Data.List.Sort
import QuantTrade.Connectivity.FixEncode
import QuantTrade.Library.Interleaving

/-!
# The registry of metrics

`MetricsRegistry` of `src/monitor/metrics.{hpp,cpp}` with its `Counter` and `Gauge`, in any number
of threads.  `counter` and `gauge` look a name up under the mutex `mu_` and create a metric that is
not there; the reference they return is used without the mutex.  `dump_all` loads all values under
the mutex, while other threads may go on changing them.

The order in which a hash map is iterated is left open by the standard library, and so is the order
in which `std::sort` leaves what compares equal (`Unspecified`).
-/

namespace QuantTrade

/-- The class of a metric. -/
inductive MetricKind where
  | counter
  | gauge
  deriving DecidableEq, Repr

/-- `MetricsRegistry`, with the values of the metrics that its maps point to. -/
structure MetricsRegistry where
  counters : List (List UInt8 × ℕ)
  gauges : List (List UInt8 × ℕ)
  values : List ℤ
  deriving DecidableEq, Repr

namespace MetricsRegistry

/-- The maps are empty. -/
def empty : MetricsRegistry where
  counters := []
  gauges := []
  values := []

/-- `counters_` or `gauges_`. -/
def metrics (r : MetricsRegistry) : MetricKind → List (List UInt8 × ℕ)
  | .counter => r.counters
  | .gauge => r.gauges

/-- `find`: the metric of a name. -/
def find (r : MetricsRegistry) (kind : MetricKind) (name : List UInt8) : Option ℕ :=
  (r.metrics kind).lookup name

/-- `emplace` of a new metric, which is the last of all. -/
def emplace (r : MetricsRegistry) (kind : MetricKind) (name : List UInt8) : MetricsRegistry :=
  match kind with
  | .counter =>
    { r with
      counters := r.counters ++ [(name, r.values.length)]
      values := r.values ++ [0] }
  | .gauge =>
    { r with
      gauges := r.gauges ++ [(name, r.values.length)]
      values := r.values ++ [0] }

/-- `Counter::get` and `Gauge::get`. -/
def get (r : MetricsRegistry) (metric : ℕ) : ℤ :=
  r.values.getD metric 0

/-- The member functions that change a metric. -/
inductive Update where
  | inc (n : ℤ)
  | dec (n : ℤ)
  | set (v : ℤ)
  deriving DecidableEq, Repr

/-- What an update does to the value, which has 64 bits. -/
def Update.apply (value : ℤ) : Update → ℤ
  | .inc n => (value + n).bmod (2 ^ 64)
  | .dec n => (value - n).bmod (2 ^ 64)
  | .set v => v.bmod (2 ^ 64)

/-- A counter has `inc` only. -/
def offers : MetricKind → Update → Bool
  | .counter, .inc _ => true
  | .counter, _ => false
  | .gauge, _ => true

/-- An update of a metric: one atomic operation. -/
def update (r : MetricsRegistry) (metric : ℕ) (u : Update) : MetricsRegistry :=
  { r with values := r.values.modify metric fun value => u.apply value }

/-- What the standard library leaves open. -/
structure Unspecified where
  /-- The order in which a map is iterated. -/
  iterate : List (List UInt8 × ℕ) → List (List UInt8 × ℕ)
  iterate_perm : ∀ map, (iterate map).Perm map
  /-- `std::sort` by the names. -/
  sort : List (List UInt8 × ℤ) → List (List UInt8 × ℤ)
  sort_perm : ∀ items, (sort items).Perm items
  sort_sorted : ∀ items, (sort items).Pairwise fun a b => ¬b.1 < a.1

/-- The order of the names, by which a dump is sorted. -/
def byName (a b : List UInt8 × ℤ) : Prop :=
  ¬b.1 < a.1

instance : DecidableRel byName :=
  fun _ _ => inferInstanceAs (Decidable (¬_))

instance : Std.Total byName where
  total a b := List.le_total a.1 b.1

instance : IsTrans (List UInt8 × ℤ) byName where
  trans _ _ _ hab hbc := List.le_trans hab hbc

/-- Maps in the order of insertion, and a stable sort. -/
def insertionOrder : Unspecified where
  iterate map := map
  iterate_perm map := List.Perm.refl map
  sort items := items.insertionSort byName
  sort_perm items := List.perm_insertionSort byName items
  sort_sorted items := List.pairwise_insertionSort byName items

/-- The metrics in the order of the two loops of `dump_all`. -/
def iteration (o : Unspecified) (r : MetricsRegistry) : List (MetricKind × List UInt8 × ℕ) :=
  (o.iterate r.counters).map (fun p => (.counter, p)) ++
    (o.iterate r.gauges).map fun p => (.gauge, p)

/-- The metrics of a registry by class and name. -/
def names (r : MetricsRegistry) : List (MetricKind × List UInt8) :=
  (r.counters.map fun p => (.counter, p.1)) ++ r.gauges.map fun p => (.gauge, p.1)

/-! ## Threads -/

/-- A reference that `counter` or `gauge` returned, with the name it was asked for. -/
structure Ref where
  kind : MetricKind
  name : List UInt8
  metric : ℕ
  deriving DecidableEq, Repr

/-- A value that `dump_all` has loaded, and after how many steps of the run. -/
structure Loaded where
  kind : MetricKind
  name : List UInt8
  value : ℤ
  tick : ℕ
  deriving DecidableEq, Repr

/-- What a call of `dump_all` has loaded between the steps that take and release the mutex. -/
structure Dump where
  since : ℕ
  upTo : ℕ
  loads : List Loaded
  deriving DecidableEq, Repr

/-- A call; an update goes through one of the references the thread has. -/
inductive Call where
  | lookup (kind : MetricKind) (name : List UInt8)
  | update (ref : ℕ) (u : Update)
  | dumpAll
  deriving DecidableEq, Repr

/-- Where a thread is. -/
inductive Pc where
  /-- Not in a call; the next step begins one. -/
  | idle
  /-- Before the mutex, in `counter` or `gauge`. -/
  | lockMap (kind : MetricKind) (name : List UInt8)
  | find (kind : MetricKind) (name : List UInt8)
  | emplace (kind : MetricKind) (name : List UInt8)
  | unlock (ref : Ref)
  /-- Before the mutex, in `dump_all`. -/
  | lockDump
  | load (since : ℕ) (loads : List Loaded)
  deriving DecidableEq, Repr

/-- The thread is between taking and releasing the mutex. -/
def Pc.inside : Pc → Bool
  | .find _ _ | .emplace _ _ | .unlock _ | .load _ _ => true
  | _ => false

/-- A thread, with the references it has got and the dumps it has made. -/
structure Client where
  pc : Pc := .idle
  refs : List Ref := []
  dumps : List Dump := []

/-- The registry, the holder of its mutex and the number of steps so far. -/
structure Shared (ι : Type) where
  registry : MetricsRegistry
  holder : Option ι
  ticks : ℕ

variable {ι : Type}

/-- One step of a thread, before the steps are counted. -/
def operate (o : Unspecified) (t : ι) (s : Shared ι) (l : Client) (call : Call) :
    Shared ι × Client :=
  match l.pc with
  | .idle =>
    match call with
    | .lookup kind name => (s, { l with pc := .lockMap kind name })
    | .dumpAll => (s, { l with pc := .lockDump })
    | .update i u =>
      match l.refs[i]? with
      | some ref =>
        if offers ref.kind u then ({ s with registry := s.registry.update ref.metric u }, l)
        else (s, l)
      | none => (s, l)
  | .lockMap kind name =>
    if s.holder.isNone then ({ s with holder := some t }, { l with pc := .find kind name })
    else (s, l)
  | .find kind name =>
    match s.registry.find kind name with
    | some metric => (s, { l with pc := .unlock ⟨kind, name, metric⟩ })
    | none => (s, { l with pc := .emplace kind name })
  | .emplace kind name =>
    ({ s with registry := s.registry.emplace kind name },
      { l with pc := .unlock ⟨kind, name, s.registry.values.length⟩ })
  | .unlock ref => ({ s with holder := none }, { l with pc := .idle, refs := l.refs ++ [ref] })
  | .lockDump =>
    if s.holder.isNone then ({ s with holder := some t }, { l with pc := .load s.ticks [] })
    else (s, l)
  | .load since loads =>
    match (s.registry.iteration o)[loads.length]? with
    | some (kind, name, metric) =>
      (s, { l with pc := .load since (loads ++ [⟨kind, name, s.registry.get metric, s.ticks⟩]) })
    | none =>
      ({ s with holder := none },
        { l with pc := .idle, dumps := l.dumps ++ [⟨since, s.ticks, loads⟩] })

/-- One step of a thread. -/
def act (o : Unspecified) (t : ι) (s : Shared ι) (l : Client) (call : Call) :
    Shared ι × Client :=
  ({ (operate o t s l call).1 with ticks := s.ticks + 1 }, (operate o t s l call).2)

/-- An empty registry, and no thread in a call. -/
def start : Interleaving.Config (Shared ι) ι Client where
  shared := ⟨empty, none, 0⟩
  locals _ := {}

/-! ## What the threads are called for -/

/-- The update that a thread makes in a step: it is in no call, and makes one that its reference
offers. -/
def updated (l : Client) (call : Call) : List (MetricKind × List UInt8 × Update) :=
  match l.pc, call with
  | .idle, .update i u =>
    match l.refs[i]? with
    | some ref => if offers ref.kind u then [(ref.kind, ref.name, u)] else []
    | none => []
  | _, _ => []

/-- The class and name that a thread begins to look up in a step. -/
def lookedUp (l : Client) (call : Call) : List (MetricKind × List UInt8) :=
  match l.pc, call with
  | .idle, .lookup kind name => [(kind, name)]
  | _, _ => []

/-- What a thread looks up, until it has the reference. -/
def Pc.pending : Pc → List (MetricKind × List UInt8)
  | .lockMap kind name | .find kind name | .emplace kind name => [(kind, name)]
  | .unlock ref => [(ref.kind, ref.name)]
  | _ => []

/-- A run by the number of its steps: the shared state, and what was seen of the steps. -/
structure History (ι : Type) where
  shared : ℕ → Shared ι
  updates : ℕ → List (MetricKind × List UInt8 × Update)
  lookups : ℕ → ι → List (MetricKind × List UInt8)

/-! ## What has been done to a metric -/

/-- The updates of a metric, in the order in which they were performed. -/
def updatesOf (kind : MetricKind) (name : List UInt8)
    (log : List (MetricKind × List UInt8 × Update)) : List Update :=
  (log.filter fun e => e.1 = kind ∧ e.2.1 = name).map fun e => e.2.2

/-- The value of a metric after its updates. -/
def valueAfter (kind : MetricKind) (name : List UInt8)
    (log : List (MetricKind × List UInt8 × Update)) : ℤ :=
  (updatesOf kind name log).foldl Update.apply 0

/-- The metrics are apart, each of them has the value that its updates give it, and no other has
been updated. -/
structure Consistent (r : MetricsRegistry) (log : List (MetricKind × List UInt8 × Update)) :
    Prop where
  nodup : ∀ kind, ((r.metrics kind).map Prod.fst).Nodup
  metric_inj : ∀ kind p kind' p', p ∈ r.metrics kind → p' ∈ r.metrics kind' → p.2 = p'.2 →
    kind = kind' ∧ p = p'
  value_eq : ∀ kind p, p ∈ r.metrics kind → r.values[p.2]? = some (valueAfter kind p.1 log)
  logged : ∀ e ∈ log, offers e.1 e.2.2 = true ∧ ∃ metric, (e.2.1, metric) ∈ r.metrics e.1

section Registry

variable {r : MetricsRegistry} {log : List (MetricKind × List UInt8 × Update)}

@[simp] lemma metrics_update (r : MetricsRegistry) (metric : ℕ) (u : Update) (kind : MetricKind) :
    (r.update metric u).metrics kind = r.metrics kind := by
  cases kind <;> rfl

@[simp] lemma values_emplace (r : MetricsRegistry) (kind : MetricKind) (name : List UInt8) :
    (r.emplace kind name).values = r.values ++ [0] := by
  cases kind <;> rfl

lemma metrics_emplace (r : MetricsRegistry) (kind kind' : MetricKind) (name : List UInt8) :
    (r.emplace kind name).metrics kind' =
      r.metrics kind' ++ if kind' = kind then [(name, r.values.length)] else [] := by
  cases kind <;> cases kind' <;> simp [emplace, metrics]

lemma mem_metrics_emplace {kind kind' : MetricKind} {name : List UInt8} {p : List UInt8 × ℕ} :
    p ∈ (r.emplace kind name).metrics kind' ↔
      p ∈ r.metrics kind' ∨ kind' = kind ∧ p = (name, r.values.length) := by
  rw [metrics_emplace, List.mem_append]
  split_ifs with h <;> simp [h]

lemma updatesOf_concat (kind : MetricKind) (name : List UInt8)
    (log : List (MetricKind × List UInt8 × Update)) (e : MetricKind × List UInt8 × Update) :
    updatesOf kind name (log ++ [e]) =
      updatesOf kind name log ++ if e.1 = kind ∧ e.2.1 = name then [e.2.2] else [] := by
  rw [updatesOf, List.filter_append, List.map_append, updatesOf]
  split_ifs with h <;> simp [h]

namespace Consistent

lemma nodup_names (h : Consistent r log) : (names r).Nodup := by
  rw [names, List.nodup_append]
  refine ⟨?_, ?_, ?_⟩
  · refine List.Nodup.of_map Prod.snd ?_
    rw [List.map_map]
    exact h.nodup .counter
  · refine List.Nodup.of_map Prod.snd ?_
    rw [List.map_map]
    exact h.nodup .gauge
  · intro a ha b hb heq
    obtain ⟨p, -, rfl⟩ := List.mem_map.mp ha
    obtain ⟨p', -, rfl⟩ := List.mem_map.mp hb
    exact MetricKind.noConfusion (congrArg Prod.fst heq)

lemma metric_lt (h : Consistent r log) {kind : MetricKind} {p : List UInt8 × ℕ}
    (hp : p ∈ r.metrics kind) : p.2 < r.values.length :=
  (List.getElem?_eq_some_iff.mp (h.value_eq kind p hp)).1

lemma get_eq (h : Consistent r log) {kind : MetricKind} {p : List UInt8 × ℕ}
    (hp : p ∈ r.metrics kind) : r.get p.2 = valueAfter kind p.1 log := by
  rw [get, List.getD_eq_getElem?_getD, h.value_eq kind p hp, Option.getD_some]

/-- A metric that is not there has not been updated. -/
lemma valueAfter_of_notMem (h : Consistent r log) {kind : MetricKind} {name : List UInt8}
    (hnew : ∀ p ∈ r.metrics kind, p.1 ≠ name) : valueAfter kind name log = 0 := by
  have hnone : (log.filter fun e => e.1 = kind ∧ e.2.1 = name) = [] := by
    rw [List.filter_eq_nil_iff]
    intro e he hmatch
    obtain ⟨rfl, rfl⟩ := of_decide_eq_true hmatch
    obtain ⟨-, metric, hmem⟩ := h.logged e he
    exact hnew _ hmem rfl
  rw [valueAfter, updatesOf, hnone]
  rfl

/-- A new metric. -/
lemma emplace (h : Consistent r log) {kind : MetricKind} {name : List UInt8}
    (hnew : ∀ p ∈ r.metrics kind, p.1 ≠ name) : Consistent (r.emplace kind name) log where
  nodup := fun kind' => by
    rw [metrics_emplace, List.map_append, List.nodup_append]
    refine ⟨h.nodup kind', by split_ifs <;> simp, ?_⟩
    intro a ha b hb
    obtain ⟨p, hp, rfl⟩ := List.mem_map.mp ha
    split_ifs at hb with hkind
    · subst hkind
      obtain rfl := List.mem_singleton.mp hb
      exact hnew p hp
    · exact absurd hb List.not_mem_nil
  metric_inj := fun kind' p kind'' p' hp hp' heq => by
    rw [mem_metrics_emplace] at hp hp'
    -- the metrics that were there are before the new one
    rcases hp with hp | ⟨rfl, rfl⟩ <;> rcases hp' with hp' | ⟨rfl, rfl⟩
    · exact h.metric_inj kind' p kind'' p' hp hp' heq
    · exact absurd heq (h.metric_lt hp).ne
    · exact absurd heq.symm (h.metric_lt hp').ne
    · exact ⟨rfl, rfl⟩
  value_eq := fun kind' p hp => by
    rw [values_emplace]
    rcases mem_metrics_emplace.mp hp with hp | ⟨rfl, rfl⟩
    · rw [List.getElem?_append_left (h.metric_lt hp), h.value_eq kind' p hp]
    · rw [List.getElem?_concat_length, h.valueAfter_of_notMem hnew]
  logged := fun e he => by
    obtain ⟨hoffers, metric, hmem⟩ := h.logged e he
    exact ⟨hoffers, metric, mem_metrics_emplace.mpr (Or.inl hmem)⟩

/-- An update through a reference. -/
lemma update (h : Consistent r log) {kind : MetricKind} {name : List UInt8} {metric : ℕ}
    (href : (name, metric) ∈ r.metrics kind) {u : Update} (hoffers : offers kind u = true) :
    Consistent (r.update metric u) (log ++ [(kind, name, u)]) where
  nodup := fun kind' => by
    rw [metrics_update]
    exact h.nodup kind'
  metric_inj := fun kind' p kind'' p' hp hp' heq => by
    rw [metrics_update] at hp hp'
    exact h.metric_inj kind' p kind'' p' hp hp' heq
  value_eq := fun kind' p hp => by
    rw [metrics_update] at hp
    change (r.values.modify metric _)[p.2]? = _
    rw [List.getElem?_modify, h.value_eq kind' p hp, valueAfter, valueAfter, updatesOf_concat]
    by_cases hsame : metric = p.2
    · obtain ⟨rfl, rfl⟩ := h.metric_inj kind _ kind' p href hp hsame
      simp
    · have hother : ¬(kind = kind' ∧ name = p.1) := by
        rintro ⟨rfl, rfl⟩
        have heq := List.inj_on_of_nodup_map (h.nodup kind) href hp rfl
        exact hsame (congrArg Prod.snd heq)
      simp [hsame, hother]
  logged := fun e he => by
    simp only [metrics_update]
    rcases List.mem_append.mp he with he | he
    · exact h.logged e he
    · obtain rfl := List.mem_singleton.mp he
      exact ⟨hoffers, metric, href⟩

end Consistent

end Registry

/-! ## Counters -/

/-- What the calls of `inc` add. -/
def amounts (us : List Update) : List ℤ :=
  us.filterMap fun
    | .inc n => some n
    | _ => none

/-- What has been added to a counter. -/
def increments (name : List UInt8) (log : List (MetricKind × List UInt8 × Update)) : List ℤ :=
  amounts (updatesOf .counter name log)

/-- Additions in 64 bits, one after the other. -/
lemma foldl_apply_of_counter {us : List Update} (h : ∀ u ∈ us, offers .counter u = true) (v : ℤ) :
    us.foldl Update.apply (v.bmod (2 ^ 64)) = (v + (amounts us).sum).bmod (2 ^ 64) := by
  induction us generalizing v with
  | nil => simp [amounts]
  | cons u us ih =>
    obtain ⟨hu, hus⟩ := List.forall_mem_cons.mp h
    cases u with
    | inc n =>
      have hamounts : amounts (.inc n :: us) = n :: amounts us := rfl
      rw [List.foldl_cons, Update.apply, Int.bmod_add_bmod, ih hus, hamounts, List.sum_cons,
        add_assoc]
    | dec n => exact Bool.noConfusion hu
    | set v => exact Bool.noConfusion hu

/-- The value of a counter is the sum of what has been added to it, in 64 bits. -/
lemma Consistent.valueAfter_counter {r : MetricsRegistry}
    {log : List (MetricKind × List UInt8 × Update)} (h : Consistent r log) (name : List UInt8) :
    valueAfter .counter name log = (increments name log).sum.bmod (2 ^ 64) := by
  have hinc : ∀ u ∈ updatesOf .counter name log, offers .counter u = true := by
    intro u hu
    obtain ⟨⟨kind, name', u⟩, he, rfl⟩ := List.mem_map.mp hu
    obtain ⟨he, hmatch⟩ := List.mem_filter.mp he
    obtain ⟨rfl, -⟩ := of_decide_eq_true hmatch
    exact (h.logged _ he).1
  have hsum := foldl_apply_of_counter hinc 0
  rw [zero_add] at hsum
  exact hsum

/-! ## What a step does -/

section Step

variable {o : Unspecified} {t : ι} {s : Shared ι} {l : Client}

variable (o t s l) in
/-- A step leaves the metrics as they are, or updates one, or adds one. -/
lemma operate_cases (call : Call) :
    ((operate o t s l call).1.registry = s.registry ∧ updated l call = []) ∨
      (∃ ref ∈ l.refs, ∃ u, offers ref.kind u = true ∧
        updated l call = [(ref.kind, ref.name, u)] ∧
        (operate o t s l call).1.registry = s.registry.update ref.metric u) ∨
      ∃ kind name, l.pc = .emplace kind name ∧ updated l call = [] ∧
        (operate o t s l call).1.registry = s.registry.emplace kind name := by
  obtain ⟨pc, refs, dumps⟩ := l
  cases pc with
  | idle =>
    cases call with
    | lookup kind name => exact Or.inl ⟨rfl, rfl⟩
    | dumpAll => exact Or.inl ⟨rfl, rfl⟩
    | update i u =>
      simp only [operate, updated]
      cases href : refs[i]? with
      | none => exact Or.inl ⟨rfl, rfl⟩
      | some ref =>
        by_cases hoffers : offers ref.kind u = true
        · exact Or.inr (Or.inl ⟨ref, List.mem_of_getElem? href, u, hoffers, by simp [hoffers],
            by simp [hoffers]⟩)
        · exact Or.inl (by simp [hoffers])
  | lockMap kind name =>
    simp only [operate]
    split_ifs <;> exact Or.inl ⟨rfl, rfl⟩
  | find kind name =>
    simp only [operate]
    cases s.registry.find kind name <;> exact Or.inl ⟨rfl, rfl⟩
  | emplace kind name => exact Or.inr (Or.inr ⟨kind, name, rfl, rfl, rfl⟩)
  | unlock ref => exact Or.inl ⟨rfl, rfl⟩
  | lockDump =>
    simp only [operate]
    split_ifs <;> exact Or.inl ⟨rfl, rfl⟩
  | load since loads =>
    simp only [operate]
    cases (s.registry.iteration o)[loads.length]? <;> exact Or.inl ⟨rfl, rfl⟩

variable (o t s l) in
/-- What a thread looks up is pending until it has the reference. -/
lemma refs_operate (call : Call) :
    ((operate o t s l call).2.refs.map fun ref => (ref.kind, ref.name)) ++
        (operate o t s l call).2.pc.pending =
      (l.refs.map fun ref => (ref.kind, ref.name)) ++ l.pc.pending ++ lookedUp l call := by
  obtain ⟨pc, refs, dumps⟩ := l
  cases pc with
  | idle =>
    cases call with
    | lookup kind name => simp [operate, lookedUp, Pc.pending]
    | dumpAll => simp [operate, lookedUp, Pc.pending]
    | update i u =>
      simp only [operate]
      cases refs[i]? with
      | none => simp [lookedUp, Pc.pending]
      | some ref => by_cases hoffers : offers ref.kind u = true <;>
          simp [hoffers, lookedUp, Pc.pending]
  | lockMap kind name =>
    cases hholder : s.holder <;> simp [operate, lookedUp, hholder, Pc.pending]
  | find kind name =>
    cases hfind : s.registry.find kind name <;> simp [operate, lookedUp, hfind, Pc.pending]
  | emplace kind name => simp [operate, lookedUp, Pc.pending]
  | unlock ref => simp [operate, lookedUp, Pc.pending]
  | lockDump => cases hholder : s.holder <;> simp [operate, lookedUp, hholder, Pc.pending]
  | load since loads =>
    cases hnext : (s.registry.iteration o)[loads.length]? <;>
      simp [operate, lookedUp, hnext, Pc.pending]

variable (o t s l) in
/-- A step takes a free mutex, releases it when the thread is inside, or leaves it. -/
lemma holder_cases (call : Call) :
    ((operate o t s l call).1.holder = s.holder ∧
        (operate o t s l call).2.pc.inside = l.pc.inside) ∨
      (s.holder = none ∧ (operate o t s l call).1.holder = some t ∧
        (operate o t s l call).2.pc.inside = true) ∨
      (l.pc.inside = true ∧ (operate o t s l call).1.holder = none ∧
        (operate o t s l call).2.pc.inside = false) := by
  obtain ⟨pc, refs, dumps⟩ := l
  cases pc with
  | idle =>
    refine Or.inl ?_
    cases call with
    | lookup kind name => exact ⟨rfl, rfl⟩
    | dumpAll => exact ⟨rfl, rfl⟩
    | update i u =>
      simp only [operate]
      cases refs[i]? with
      | none => exact ⟨rfl, rfl⟩
      | some ref => by_cases hoffers : offers ref.kind u = true <;> simp [hoffers]
  | lockMap kind name =>
    cases hholder : s.holder with
    | some t' => exact Or.inl (by simp [operate, hholder])
    | none => exact Or.inr (Or.inl (by simp [operate, hholder, Pc.inside]))
  | find kind name =>
    refine Or.inl ?_
    simp only [operate]
    cases s.registry.find kind name <;> exact ⟨rfl, rfl⟩
  | emplace kind name => exact Or.inl ⟨rfl, rfl⟩
  | unlock ref => exact Or.inr (Or.inr ⟨rfl, rfl, rfl⟩)
  | lockDump =>
    cases hholder : s.holder with
    | some t' => exact Or.inl (by simp [operate, hholder])
    | none => exact Or.inr (Or.inl (by simp [operate, hholder, Pc.inside]))
  | load since loads =>
    simp only [operate]
    cases (s.registry.iteration o)[loads.length]? with
    | some p => exact Or.inl ⟨rfl, rfl⟩
    | none => exact Or.inr (Or.inr ⟨rfl, rfl, rfl⟩)

/-- A thread gets a reference when it releases the mutex in `counter` or `gauge`. -/
lemma mem_refs_operate {call : Call} {ref : Ref} (h : ref ∈ (operate o t s l call).2.refs) :
    ref ∈ l.refs ∨ l.pc = .unlock ref := by
  obtain ⟨pc, refs, dumps⟩ := l
  cases pc with
  | idle =>
    refine Or.inl ?_
    cases call with
    | lookup kind name => exact h
    | dumpAll => exact h
    | update i u =>
      simp only [operate] at h
      cases href : refs[i]? with
      | none => simpa [href] using h
      | some ref' => by_cases hoffers : offers ref'.kind u = true <;> simpa [href, hoffers] using h
  | lockMap kind name => cases hholder : s.holder <;> simp_all [operate]
  | find kind name => cases hfind : s.registry.find kind name <;> simp_all [operate]
  | emplace kind name => exact Or.inl h
  | unlock ref' =>
    rcases List.mem_append.mp h with h | h
    · exact Or.inl h
    · exact Or.inr (congrArg Pc.unlock (List.mem_singleton.mp h).symm)
  | lockDump => cases hholder : s.holder <;> simp_all [operate]
  | load since loads =>
    cases hnext : (s.registry.iteration o)[loads.length]? <;> simp_all [operate]

/-- A dump is made when no metric is next. -/
lemma mem_dumps_operate {call : Call} {d : Dump} (h : d ∈ (operate o t s l call).2.dumps) :
    d ∈ l.dumps ∨ ∃ since loads, l.pc = .load since loads ∧
      (s.registry.iteration o)[loads.length]? = none ∧ d = ⟨since, s.ticks, loads⟩ := by
  obtain ⟨pc, refs, dumps⟩ := l
  cases pc with
  | idle =>
    refine Or.inl ?_
    cases call with
    | lookup kind name => exact h
    | dumpAll => exact h
    | update i u =>
      simp only [operate] at h
      cases href : refs[i]? with
      | none => simpa [href] using h
      | some ref' => by_cases hoffers : offers ref'.kind u = true <;> simpa [href, hoffers] using h
  | lockMap kind name => cases hholder : s.holder <;> simp_all [operate]
  | find kind name => cases hfind : s.registry.find kind name <;> simp_all [operate]
  | emplace kind name => exact Or.inl h
  | unlock ref' => exact Or.inl h
  | lockDump => cases hholder : s.holder <;> simp_all [operate]
  | load since loads =>
    cases hnext : (s.registry.iteration o)[loads.length]? with
    | some p => simp_all [operate]
    | none =>
      simp only [operate, hnext] at h
      rcases List.mem_append.mp h with h | h
      · exact Or.inl h
      · exact Or.inr ⟨since, loads, rfl, hnext, List.mem_singleton.mp h⟩

/-- No step takes a metric away. -/
lemma metrics_grow (call : Call) (kind : MetricKind) :
    s.registry.metrics kind <+: (operate o t s l call).1.registry.metrics kind := by
  rcases operate_cases o t s l call with
    ⟨hregistry, -⟩ | ⟨ref, -, u, -, -, hregistry⟩ | ⟨k, name, -, -, hregistry⟩
  · rw [hregistry]
  · rw [hregistry, metrics_update]
  · rw [hregistry, metrics_emplace]
    exact List.prefix_append _ _

/-- Only a thread that is inside adds a metric. -/
lemma metrics_of_outside (hout : l.pc.inside = false) (call : Call) (kind : MetricKind) :
    (operate o t s l call).1.registry.metrics kind = s.registry.metrics kind := by
  rcases operate_cases o t s l call with
    ⟨hregistry, -⟩ | ⟨ref, -, u, -, -, hregistry⟩ | ⟨k, name, hpc, -⟩
  · rw [hregistry]
  · rw [hregistry, metrics_update]
  · rw [hpc] at hout
    exact Bool.noConfusion hout

end Step

/-! ## What the threads know -/

/-- A dump has the metrics that there were when it began, none came while it was taken, and each
value is the one that the metric had when it was loaded. -/
structure Dump.Faithful (hist : History ι) (d : Dump) : Prop where
  since_lt : d.since < d.upTo
  perm : (d.loads.map fun l => (l.kind, l.name)).Perm (names (hist.shared d.since).registry)
  unchanged : ∀ kind,
    (hist.shared d.upTo).registry.metrics kind = (hist.shared d.since).registry.metrics kind
  loaded : ∀ l ∈ d.loads, d.since < l.tick ∧ l.tick < d.upTo ∧
    l.value = valueAfter l.kind l.name (hist.updates l.tick)

/-- What a thread knows at a place. -/
def PcKnows (o : Unspecified) (hist : History ι) (s : Shared ι) : Pc → Prop
  | .emplace kind name => ∀ p ∈ s.registry.metrics kind, p.1 ≠ name
  | .unlock ref => (ref.name, ref.metric) ∈ s.registry.metrics ref.kind
  | .load since loads =>
    since < s.ticks ∧
    (∀ kind, (hist.shared since).registry.metrics kind = s.registry.metrics kind) ∧
    (loads.map fun l => (l.kind, l.name)) =
      ((s.registry.iteration o).take loads.length).map (fun m => (m.1, m.2.1)) ∧
    ∀ l ∈ loads, since < l.tick ∧ l.tick < s.ticks ∧
      l.value = valueAfter l.kind l.name (hist.updates l.tick)
  | _ => True

/-- What a thread knows of its references, of its dumps and of the mutex. -/
structure Knows (o : Unspecified) (hist : History ι) (t : ι) (s : Shared ι) (l : Client) :
    Prop where
  holder_iff : s.holder = some t ↔ l.pc.inside = true
  refs : ∀ ref ∈ l.refs, (ref.name, ref.metric) ∈ s.registry.metrics ref.kind
  lookups : (l.refs.map fun ref => (ref.kind, ref.name)) ++ l.pc.pending = hist.lookups s.ticks t
  dumps : ∀ d ∈ l.dumps, d.upTo < s.ticks ∧ d.Faithful hist
  pc : PcKnows o hist s l.pc

/-- The history has the shared state, and the step that follows, as they are. -/
structure History.Records (hist : History ι) (t : ι) (s : Shared ι) (l : Client) (call : Call) :
    Prop where
  shared : hist.shared s.ticks = s
  updates : hist.updates (s.ticks + 1) = hist.updates s.ticks ++ updated l call
  own : hist.lookups (s.ticks + 1) t = hist.lookups s.ticks t ++ lookedUp l call
  others : ∀ t', t' ≠ t → hist.lookups (s.ticks + 1) t' = hist.lookups s.ticks t'

section Knowledge

variable {o : Unspecified} {hist : History ι} {t : ι} {s : Shared ι} {l : Client}

/-- The loops of `dump_all` meet every metric. -/
lemma perm_iteration (o : Unspecified) (r : MetricsRegistry) :
    ((r.iteration o).map fun m => (m.1, m.2.1)).Perm (names r) := by
  rw [iteration, names, List.map_append, List.map_map, List.map_map]
  exact ((o.iterate_perm r.counters).map _).append ((o.iterate_perm r.gauges).map _)

lemma mem_iteration {r : MetricsRegistry} {m : MetricKind × List UInt8 × ℕ}
    (h : m ∈ r.iteration o) : m.2 ∈ r.metrics m.1 := by
  rcases List.mem_append.mp h with h | h
  · obtain ⟨p, hp, rfl⟩ := List.mem_map.mp h
    exact (o.iterate_perm r.counters).mem_iff.mp hp
  · obtain ⟨p, hp, rfl⟩ := List.mem_map.mp h
    exact (o.iterate_perm r.gauges).mem_iff.mp hp

/-- Registries with the same maps have the same names and are iterated alike. -/
lemma congr_of_metrics {r r' : MetricsRegistry}
    (h : ∀ kind, r.metrics kind = r'.metrics kind) :
    names r = names r' ∧ r.iteration o = r'.iteration o := by
  have hcounters : r.counters = r'.counters := h .counter
  have hgauges : r.gauges = r'.gauges := h .gauge
  simp only [names, iteration, hcounters, hgauges, and_self]

/-- A load of the metric that is next. -/
lemma pcKnows_load (hs : Consistent s.registry (hist.updates s.ticks)) {since : ℕ}
    {loads : List Loaded} (h : PcKnows o hist s (.load since loads)) {kind : MetricKind}
    {name : List UInt8} {metric : ℕ}
    (hnext : (s.registry.iteration o)[loads.length]? = some (kind, name, metric)) :
    PcKnows o hist { s with ticks := s.ticks + 1 }
      (.load since (loads ++ [⟨kind, name, s.registry.get metric, s.ticks⟩])) := by
  obtain ⟨hsince, hmetrics, hnames, hloaded⟩ := h
  refine ⟨hsince.trans (Nat.lt_succ_self _), hmetrics, ?_, ?_⟩
  · rw [List.map_append, hnames, List.length_append, List.length_singleton, List.take_add_one,
      hnext, Option.toList_some, List.map_append]
    rfl
  · intro l hl
    rcases List.mem_append.mp hl with hl | hl
    · obtain ⟨hlower, hupper, hvalue⟩ := hloaded l hl
      exact ⟨hlower, hupper.trans (Nat.lt_succ_self _), hvalue⟩
    · obtain rfl := List.mem_singleton.mp hl
      exact ⟨hsince, Nat.lt_succ_self _, hs.get_eq (mem_iteration (List.mem_of_getElem? hnext))⟩

/-- When no metric is next, the dump is complete. -/
lemma faithful_of_pcKnows (hhist : hist.shared s.ticks = s) {since : ℕ} {loads : List Loaded}
    (h : PcKnows o hist s (.load since loads))
    (hnext : (s.registry.iteration o)[loads.length]? = none) :
    (⟨since, s.ticks, loads⟩ : Dump).Faithful hist := by
  obtain ⟨hsince, hmetrics, hnames, hloaded⟩ := h
  refine ⟨hsince, ?_, fun kind => ?_, hloaded⟩
  · rw [List.take_of_length_le (List.getElem?_eq_none_iff.mp hnext)] at hnames
    rw [hnames, (congr_of_metrics (o := o) hmetrics).1]
    exact perm_iteration o s.registry
  · rw [hmetrics kind, hhist]

/-- A place with nothing to know about. -/
lemma pcKnows_of_outside {pc : Pc} (h : pc.inside = false) : PcKnows o hist s pc := by
  cases pc with
  | find kind name => exact Bool.noConfusion h
  | emplace kind name => exact Bool.noConfusion h
  | unlock ref => exact Bool.noConfusion h
  | load since loads => exact Bool.noConfusion h
  | _ => trivial

/-- What is known at a place stays true while the maps stay as they are. -/
lemma PcKnows.mono {s' : Shared ι} {pc : Pc} (h : PcKnows o hist s pc)
    (hmetrics : ∀ kind, s'.registry.metrics kind = s.registry.metrics kind)
    (hticks : s.ticks ≤ s'.ticks) : PcKnows o hist s' pc := by
  cases pc with
  | emplace kind name => exact fun p hp => h p (hmetrics kind ▸ hp)
  | unlock ref =>
    change _ ∈ s'.registry.metrics ref.kind
    rw [hmetrics]
    exact h
  | load since loads =>
    obtain ⟨hsince, hsame, hnames, hloaded⟩ := h
    refine ⟨hsince.trans_le hticks, fun kind => (hsame kind).trans (hmetrics kind).symm, ?_, ?_⟩
    · rw [hnames, (congr_of_metrics hmetrics).2]
    · intro l hl
      obtain ⟨hlower, hupper, hvalue⟩ := hloaded l hl
      exact ⟨hlower, hupper.trans_le hticks, hvalue⟩
  | _ => trivial

lemma consistent_operate {call : Call} (hhist : hist.Records t s l call)
    (hs : Consistent s.registry (hist.updates s.ticks)) (hl : Knows o hist t s l) :
    Consistent (operate o t s l call).1.registry (hist.updates (s.ticks + 1)) := by
  rw [hhist.updates]
  rcases operate_cases o t s l call with
    ⟨hregistry, hnone⟩ | ⟨ref, href, u, hoffers, hone, hregistry⟩ |
      ⟨kind, name, hpc, hnone, hregistry⟩
  · rw [hregistry, hnone, List.append_nil]
    exact hs
  · rw [hregistry, hone]
    exact hs.update (hl.refs ref href) hoffers
  · rw [hregistry, hnone, List.append_nil]
    refine hs.emplace ?_
    have hknows := hl.pc
    rw [hpc] at hknows
    exact hknows

/-- A step gives a thread what it knows at its next place. -/
lemma pcKnows_own (hs : Consistent s.registry (hist.updates s.ticks))
    (hhist : hist.shared s.ticks = s)
    (h : PcKnows o hist s l.pc) (call : Call) :
    PcKnows o hist (act o t s l call).1 (act o t s l call).2.pc := by
  obtain ⟨pc, refs, dumps⟩ := l
  cases pc with
  | idle =>
    refine pcKnows_of_outside ?_
    cases call with
    | lookup kind name => rfl
    | dumpAll => rfl
    | update i u =>
      simp only [act, operate]
      cases refs[i]? with
      | none => rfl
      | some ref => by_cases hoffers : offers ref.kind u = true <;> simp [hoffers, Pc.inside]
  | lockMap kind name =>
    cases hholder : s.holder <;> simp [act, operate, hholder, PcKnows]
  | find kind name =>
    cases hfind : s.registry.find kind name with
    | none =>
      simp only [act, operate, hfind]
      intro p hp hname
      rw [find, List.lookup_eq_none_iff] at hfind
      exact absurd (hfind p hp) (by simp [hname])
    | some metric =>
      simp only [act, operate, hfind]
      obtain ⟨before, behind, hsplit, -⟩ := List.lookup_eq_some_iff.mp hfind
      change (name, metric) ∈ s.registry.metrics kind
      rw [hsplit]
      simp
  | emplace kind name => exact mem_metrics_emplace.mpr (Or.inr ⟨rfl, rfl⟩)
  | unlock ref => trivial
  | lockDump =>
    cases hholder : s.holder with
    | some t' => simp [act, operate, hholder, PcKnows]
    | none =>
      simp only [act, operate, hholder, Option.isNone_none, if_true]
      exact ⟨Nat.lt_succ_self _, fun kind => by rw [hhist], rfl, fun l hl => absurd hl (by simp)⟩
  | load since loads =>
    cases hnext : (s.registry.iteration o)[loads.length]? with
    | none =>
      simp only [act, operate, hnext]
      trivial
    | some m =>
      obtain ⟨kind, name, metric⟩ := m
      simp only [act, operate, hnext]
      exact pcKnows_load hs h hnext

/-- A thread keeps track of what it gets. -/
lemma knows_own {call : Call} (hhist : hist.Records t s l call)
    (hs : Consistent s.registry (hist.updates s.ticks)) (hl : Knows o hist t s l) :
    Knows o hist t (act o t s l call).1 (act o t s l call).2 where
  holder_iff := by
    change (operate o t s l call).1.holder = some t ↔ (operate o t s l call).2.pc.inside = true
    rcases holder_cases o t s l call with
      ⟨hsame, hplace⟩ | ⟨-, htaken, hinside⟩ | ⟨-, hfreed, hout⟩
    · rw [hsame, hplace]
      exact hl.holder_iff
    · simp [htaken, hinside]
    · simp [hfreed, hout]
  refs := fun ref href => by
    refine (metrics_grow call ref.kind).subset ?_
    rcases mem_refs_operate href with href | hpc
    · exact hl.refs ref href
    · have hknows := hl.pc
      rw [hpc] at hknows
      exact hknows
  lookups := by
    change _ = hist.lookups (s.ticks + 1) t
    rw [hhist.own, ← hl.lookups]
    exact refs_operate o t s l call
  dumps := fun d hd => by
    rcases mem_dumps_operate hd with hd | ⟨since, loads, hpc, hnext, rfl⟩
    · exact ⟨(hl.dumps d hd).1.trans (Nat.lt_succ_self _), (hl.dumps d hd).2⟩
    · have hknows := hl.pc
      rw [hpc] at hknows
      exact ⟨Nat.lt_succ_self _, faithful_of_pcKnows hhist.shared hknows hnext⟩
  pc := pcKnows_own hs hhist.shared hl.pc call

/-- A thread does not interfere with what another one knows. -/
lemma knows_others {call : Call} (hhist : hist.Records t s l call) (hl : Knows o hist t s l)
    {t' : ι} {l' : Client} (hne : t' ≠ t) (hl' : Knows o hist t' s l') :
    Knows o hist t' (act o t s l call).1 l' where
  holder_iff := by
    rw [← hl'.holder_iff]
    change (operate o t s l call).1.holder = some t' ↔ _
    rcases holder_cases o t s l call with ⟨hsame, -⟩ | ⟨hfree, htaken, -⟩ | ⟨hinside, hfreed, -⟩
    · rw [hsame]
    · simp [hfree, htaken, Ne.symm hne]
    · simp [hl.holder_iff.mpr hinside, hfreed, Ne.symm hne]
  refs := fun ref href => (metrics_grow call ref.kind).subset (hl'.refs ref href)
  lookups := hl'.lookups.trans (hhist.others t' hne).symm
  dumps := fun d hd => ⟨(hl'.dumps d hd).1.trans (Nat.lt_succ_self _), (hl'.dumps d hd).2⟩
  pc := by
    cases hinside' : l'.pc.inside with
    | false => exact pcKnows_of_outside hinside'
    | true =>
      -- the mutex has one holder, so the thread that takes the step is outside
      have hout : l.pc.inside = false := by
        rw [← Bool.not_eq_true, ← hl.holder_iff, hl'.holder_iff.mpr hinside']
        exact fun h => hne (Option.some_inj.mp h)
      exact hl'.pc.mono (metrics_of_outside hout call) (Nat.le_succ _)

end Knowledge

/-! ## Runs -/

section Runs

lemma inductive_knows (o : Unspecified) (hist : History ι) :
    Interleaving.Inductive (act o) hist.Records
      (fun s => Consistent s.registry (hist.updates s.ticks)) (Knows o hist) where
  shared := fun _ _ _ _ hhist hs hl => consistent_operate hhist hs hl
  own := fun _ _ _ _ hhist hs hl => knows_own hhist hs hl
  others := fun _ _ _ _ hhist _ hl _ _ hne hl' => knows_others hhist hl hne hl'

lemma holds_start (o : Unspecified) {hist : History ι} (hupdates : hist.updates 0 = [])
    (hlookups : ∀ t, hist.lookups 0 t = []) :
    Interleaving.Holds (fun s => Consistent s.registry (hist.updates s.ticks)) (Knows o hist)
      start where
  shared := by
    change Consistent empty (hist.updates 0)
    rw [hupdates]
    exact
      { nodup := fun kind => by cases kind <;> exact List.nodup_nil
        metric_inj := fun kind p _ _ hp => by cases kind <;> exact absurd hp List.not_mem_nil
        value_eq := fun kind p hp => by cases kind <;> exact absurd hp List.not_mem_nil
        logged := fun e he => absurd he List.not_mem_nil }
  locals := fun t =>
    { holder_iff := iff_of_false (Option.some_ne_none t).symm Bool.false_ne_true
      refs := fun ref href => absurd href List.not_mem_nil
      lookups := (hlookups t).symm
      dumps := fun d hd => absurd hd List.not_mem_nil
      pc := trivial }

variable [DecidableEq ι]

/-- The threads, after the first `j` steps. -/
def stateAt (o : Unspecified) (steps : List (ι × Call)) (j : ℕ) :
    Interleaving.Config (Shared ι) ι Client :=
  Transition.run (Interleaving.step (act o)) start (steps.take j)

/-- The updates that the threads made in some steps, through their references. -/
def updates (o : Unspecified) (steps : List (ι × Call)) : List (MetricKind × List UInt8 × Update) :=
  Transition.observe (Interleaving.step (act o)) (fun c p => updated (c.locals p.1) p.2) start steps

/-- The classes and names that a thread asked for in some steps. -/
def lookups (o : Unspecified) (steps : List (ι × Call)) (t : ι) : List (MetricKind × List UInt8) :=
  Transition.observe (Interleaving.step (act o))
    (fun c p => if p.1 = t then lookedUp (c.locals t) p.2 else []) start steps

/-- What is seen of a run. -/
def history (o : Unspecified) (steps : List (ι × Call)) : History ι where
  shared j := (stateAt o steps j).shared
  updates j := updates o (steps.take j)
  lookups j := lookups o (steps.take j)

lemma ticks_run (o : Unspecified) (steps : List (ι × Call)) :
    (Transition.run (Interleaving.step (act o)) start steps).shared.ticks = steps.length := by
  induction steps using List.reverseRecOn with
  | nil => rfl
  | append_singleton steps p ih =>
    rw [Transition.run_concat, List.length_append, List.length_singleton, ← ih]
    rfl

/-- What the threads know holds in every run, of its own history. -/
lemma holds_run (o : Unspecified) (steps : List (ι × Call)) :
    Interleaving.Holds (fun s => Consistent s.registry ((history o steps).updates s.ticks))
      (Knows o (history o steps)) (Transition.run (Interleaving.step (act o)) start steps) := by
  refine (holds_start o rfl fun _ => rfl).run (inductive_knows o _) ?_
  rw [Transition.admissible_iff_forall_run]
  intro before p hprefix
  have hbefore : steps.take before.length = before :=
    (List.prefix_iff_eq_take.mp ((List.prefix_append before [p]).trans hprefix)).symm
  have hnext : steps.take (before.length + 1) = before ++ [p] := by
    have hlength : (before ++ [p]).length = before.length + 1 := List.length_append
    rw [← hlength]
    exact (List.prefix_iff_eq_take.mp hprefix).symm
  constructor
  · change (stateAt o steps _).shared = _
    rw [ticks_run, stateAt, hbefore]
  · change updates o (steps.take _) = updates o (steps.take _) ++ _
    rw [ticks_run, hbefore, hnext, updates, updates, Transition.observe_concat]
  · change lookups o (steps.take _) p.1 = lookups o (steps.take _) p.1 ++ _
    rw [ticks_run, hbefore, hnext, lookups, lookups, Transition.observe_concat, if_pos rfl]
  · intro t' hne
    change lookups o (steps.take _) t' = lookups o (steps.take _) t'
    rw [ticks_run, hbefore, hnext, lookups, lookups, Transition.observe_concat, if_neg hne.symm,
      List.append_nil]

/-- **The registry.**  In every interleaving of calls: a thread has a reference for each class and
name it asked for, in their order, but for the last one while it waits for it; two references are to
the same metric exactly when they were asked for by the same class and name, whichever threads asked
and whenever; no update is lost, so a metric has the value that the updates through its references
give it one after the other, a counter the sum of the increments; and a dump has every metric that
there is while it is taken once, with a value that the metric had in that time. -/
theorem registry_accounts (o : Unspecified) (steps : List (ι × Call)) :
    let now := stateAt o steps steps.length
    (∀ t, ((now.locals t).refs.map fun ref => (ref.kind, ref.name)) ++ (now.locals t).pc.pending =
      lookups o steps t) ∧
    (∀ t t' ref ref', ref ∈ (now.locals t).refs → ref' ∈ (now.locals t').refs →
      (ref.metric = ref'.metric ↔ ref.kind = ref'.kind ∧ ref.name = ref'.name)) ∧
    (∀ t ref, ref ∈ (now.locals t).refs →
      now.shared.registry.get ref.metric = valueAfter ref.kind ref.name (updates o steps) ∧
      (ref.kind = .counter → now.shared.registry.get ref.metric =
        (increments ref.name (updates o steps)).sum.bmod (2 ^ 64))) ∧
    ∀ t d, d ∈ (now.locals t).dumps → d.upTo < steps.length ∧
      (d.loads.map fun l => (l.kind, l.name)).Nodup ∧ d.Faithful (history o steps) := by
  intro now
  obtain ⟨hconsistent, hknows⟩ := holds_run o steps
  have hnow : now = Transition.run (Interleaving.step (act o)) start steps := by
    change Transition.run _ _ _ = _
    rw [List.take_length]
  rw [← hnow] at hconsistent hknows
  have hticks : now.shared.ticks = steps.length := by rw [hnow, ticks_run]
  have hupdates : (history o steps).updates now.shared.ticks = updates o steps := by
    rw [hticks]
    exact congrArg (updates o) List.take_length
  rw [hupdates] at hconsistent
  refine ⟨?_, ?_, ?_, ?_⟩
  · intro t
    rw [(hknows t).lookups, hticks]
    exact congrArg (lookups o · t) List.take_length
  · intro t t' ref ref' href href'
    have hmem := (hknows t).refs ref href
    have hmem' := (hknows t').refs ref' href'
    constructor
    · intro heq
      obtain ⟨hkind, hp⟩ := hconsistent.metric_inj _ _ _ _ hmem hmem' heq
      exact ⟨hkind, congrArg Prod.fst hp⟩
    · rintro ⟨hkind, hname⟩
      rw [← hkind] at hmem'
      have hp := List.inj_on_of_nodup_map (hconsistent.nodup ref.kind) hmem hmem' hname
      exact congrArg Prod.snd hp
  · intro t ref href
    have hget := hconsistent.get_eq ((hknows t).refs ref href)
    refine ⟨hget, fun hkind => ?_⟩
    rw [hget, hkind]
    exact hconsistent.valueAfter_counter ref.name
  · intro t d hd
    obtain ⟨hlt, hfaithful⟩ := (hknows t).dumps d hd
    rw [hticks] at hlt
    refine ⟨hlt, ?_, hfaithful⟩
    rw [hfaithful.perm.nodup_iff]
    exact Consistent.nodup_names (holds_run o (steps.take d.since)).shared

/-- Two threads ask for the counter `b` at the same time and increment it; one of them dumps it
meanwhile. -/
def countedByTwo : List (ℕ × Call) :=
  [(0, .lookup .counter ['b'.toUInt8]), (1, .lookup .counter ['b'.toUInt8])] ++
    List.replicate 4 (0, .dumpAll) ++ [(0, .update 0 (.inc 3))] ++
    List.replicate 3 (1, .dumpAll) ++ List.replicate 2 (0, .dumpAll) ++
    [(1, .update 0 (.inc 4)), (0, .dumpAll), (0, .dumpAll), (1, .update 0 (.inc 5))]

/-- Both have a reference to the same counter; it has the sum of the increments, and the dump its
value between the second and the third of them. -/
theorem registry_accounts_countedByTwo :
    let now := stateAt insertionOrder countedByTwo countedByTwo.length
    let ref : Ref := ⟨.counter, ['b'.toUInt8], 0⟩
    (now.locals 0).refs = [ref] ∧ (now.locals 1).refs = [ref] ∧
      (now.locals 0).dumps = [⟨11, 14, [⟨.counter, ['b'.toUInt8], 7, 13⟩]⟩] ∧
      now.shared.registry.get 0 = ([3, 4, 5] : List ℤ).sum.bmod (2 ^ 64) := by
  intro now ref
  have hzero : (now.locals 0).refs = [ref] := by decide +kernel
  have hone : (now.locals 1).refs = [ref] := by decide +kernel
  have hdumps : (now.locals 0).dumps = [⟨11, 14, [⟨.counter, ['b'.toUInt8], 7, 13⟩]⟩] := by
    decide +kernel
  have hupdates : increments ref.name (updates insertionOrder countedByTwo) = [3, 4, 5] := by
    decide +kernel
  obtain ⟨-, -, hvalues, -⟩ := registry_accounts insertionOrder countedByTwo
  have hvalue := (hvalues 0 ref (by rw [hzero]; exact List.mem_singleton_self ref)).2 rfl
  rw [hupdates] at hvalue
  exact ⟨hzero, hone, hdumps, hvalue⟩

end Runs

/-! ## The text of a dump -/

/-- The byte between a name and its value. -/
def space : UInt8 := ' '.toUInt8

/-- The byte at the end of a line. -/
def newline : UInt8 := '\n'.toUInt8

/-- The line of a metric. -/
def line (item : List UInt8 × ℤ) : List UInt8 :=
  item.1 ++ space :: decimalInt item.2 ++ [newline]

/-- The pairs that `dump_all` sorts. -/
def Dump.items (d : Dump) : List (List UInt8 × ℤ) :=
  d.loads.map fun l => (l.name, l.value)

/-- What `dump_all` returns. -/
def Dump.text (o : Unspecified) (d : Dump) : List UInt8 :=
  (o.sort d.items).flatMap line

/-- An integer is read with its sign. -/
def readInt : List UInt8 → ℤ
  | [] => 0
  | b :: digits => if b = '-'.toUInt8 then -readDecimal digits else readDecimal (b :: digits)

/-- A line is a name, the last space and a value. -/
def readLine (l : List UInt8) : List UInt8 × ℤ :=
  ((l.rdropWhile (· ≠ space)).dropLast, readInt (l.rtakeWhile (· ≠ space)))

/-- The lines of a text. -/
def readText (t : List UInt8) : List (List UInt8 × ℤ) :=
  ((t.splitOn newline).dropLast).map readLine

lemma not_mem_decimalInt {b : UInt8} (hdigit : isDigit b = false) (hminus : b ≠ '-'.toUInt8)
    (x : ℤ) : b ∉ decimalInt x := by
  have hdecimal : b ∉ decimal x.natAbs := fun hb => by
    rw [isDigit_of_mem_decimal hb] at hdigit
    exact Bool.noConfusion hdigit
  unfold decimalInt
  split_ifs
  · rw [List.mem_cons, not_or]
    exact ⟨hminus, hdecimal⟩
  · exact hdecimal

/-- An integer is read as it was written. -/
lemma readInt_decimalInt (x : ℤ) : readInt (decimalInt x) = x := by
  unfold decimalInt
  split_ifs with hneg
  · rw [readInt, if_pos rfl, readDecimal_decimal]
    omega
  · cases hdigits : decimal x.natAbs with
    | nil => exact absurd (length_decimal_pos x.natAbs) (by simp [hdigits])
    | cons b digits =>
      have hb : b ≠ '-'.toUInt8 := by
        rintro rfl
        have hmem : '-'.toUInt8 ∈ decimal x.natAbs := by simp [hdigits]
        exact absurd (isDigit_of_mem_decimal hmem) (by decide)
      rw [readInt, if_neg hb, ← hdigits, readDecimal_decimal]
      omega

/-- A line is read as it was written, whatever the name. -/
lemma readLine_eq (item : List UInt8 × ℤ) :
    readLine (item.1 ++ space :: decimalInt item.2) = item := by
  have hreverse : (item.1 ++ space :: decimalInt item.2).reverse =
      (decimalInt item.2).reverse ++ space :: item.1.reverse := by
    simp
  have hvalue : ∀ b ∈ (decimalInt item.2).reverse, decide (b ≠ space) = true := by
    intro b hb
    rw [List.mem_reverse] at hb
    rw [decide_eq_true_eq]
    rintro rfl
    exact not_mem_decimalInt (by decide) (by decide) _ hb
  have hspace : ¬decide (space ≠ space) = true := by simp
  rw [readLine, List.rdropWhile, List.rtakeWhile, hreverse, List.dropWhile_append_of_pos hvalue,
    List.takeWhile_append_of_pos hvalue,
    List.dropWhile_cons_of_neg (p := fun b => decide (b ≠ space)) hspace,
    List.takeWhile_cons_of_neg (p := fun b => decide (b ≠ space)) hspace]
  simp [readInt_decimalInt]

/-- Lines are read as they were written when no name goes over the end of a line. -/
lemma readText_flatMap_line {items : List (List UInt8 × ℤ)}
    (h : ∀ item ∈ items, newline ∉ item.1) : readText (items.flatMap line) = items := by
  induction items with
  | nil => rfl
  | cons item items ih =>
    obtain ⟨hname, hnames⟩ := List.forall_mem_cons.mp h
    have hbody : newline ∉ item.1 ++ space :: decimalInt item.2 := by
      rw [List.mem_append, List.mem_cons, not_or, not_or]
      exact ⟨hname, by decide, not_mem_decimalInt (by decide) (by decide) _⟩
    have hsplit : ((item :: items).flatMap line).splitOn newline =
        (item.1 ++ space :: decimalInt item.2) :: (items.flatMap line).splitOn newline := by
      rw [List.flatMap_cons, line, List.append_assoc, List.singleton_append,
        List.splitOn_append_cons_self_of_not_mem hbody]
    rw [readText, hsplit, List.dropLast_cons_of_ne_nil (List.splitOn_ne_nil _ _), List.map_cons,
      readLine_eq, ← readText, ih hnames]

/-- Sorting does not depend on what the standard library leaves open when the names are different.
-/
lemma sort_eq_sort (o o' : Unspecified) {items items' : List (List UInt8 × ℤ)}
    (hperm : items.Perm items') (hnodup : (items.map Prod.fst).Nodup) :
    o.sort items = o'.sort items' := by
  have hperm' := (o.sort_perm items).trans (hperm.trans (o'.sort_perm items').symm)
  refine hperm'.eq_of_pairwise ?_ (o.sort_sorted items) (o'.sort_sorted items')
  intro a b ha hb hab hba
  have hname : a.1 = b.1 := List.le_antisymm hab hba
  have hmem : b ∈ items := hperm.mem_iff.mpr ((o'.sort_perm items').mem_iff.mp hb)
  exact List.inj_on_of_nodup_map hnodup ((o.sort_perm items).mem_iff.mp ha) hmem hname

/-- No name is that of a counter and of a gauge. -/
def Apart (r : MetricsRegistry) : Prop :=
  ∀ p ∈ r.counters, ∀ q ∈ r.gauges, p.1 ≠ q.1

instance (r : MetricsRegistry) : Decidable r.Apart :=
  inferInstanceAs (Decidable (∀ p ∈ r.counters, ∀ q ∈ r.gauges, p.1 ≠ q.1))

/-- The names of the counters and the gauges together. -/
lemma nodup_of_apart {r : MetricsRegistry} {log : List (MetricKind × List UInt8 × Update)}
    (h : Consistent r log) (hapart : r.Apart) : ((names r).map Prod.snd).Nodup := by
  rw [names, List.map_append, List.map_map, List.map_map, List.nodup_append]
  refine ⟨h.nodup .counter, h.nodup .gauge, ?_⟩
  intro a ha b hb
  obtain ⟨p, hp, rfl⟩ := List.mem_map.mp ha
  obtain ⟨q, hq, rfl⟩ := List.mem_map.mp hb
  exact hapart p hp q hq

/-- **The text of a dump.**  In every run, when no name goes over the end of a line, the text of a
dump reads back as the names and values that were loaded, in the order of the names; and when no
name is that of a counter and of a gauge, it is the same text in whatever order the standard library
has the maps and equal elements. -/
theorem dump_reads_back [DecidableEq ι] (o : Unspecified) (steps : List (ι × Call)) {t : ι}
    {d : Dump} (hd : d ∈ ((stateAt o steps steps.length).locals t).dumps)
    (hnames : ∀ l ∈ d.loads, newline ∉ l.name) :
    (readText (d.text o)).Perm d.items ∧
      (readText (d.text o)).Pairwise (fun a b => ¬b.1 < a.1) ∧
      ((stateAt o steps d.since).shared.registry.Apart →
        (readText (d.text o)).Pairwise (fun a b => a.1 < b.1) ∧
          ∀ o' d', d'.items.Perm d.items → Dump.text o' d' = d.text o) := by
  have hread : readText (d.text o) = o.sort d.items := by
    refine readText_flatMap_line fun item hitem => ?_
    obtain ⟨l, hl, rfl⟩ := List.mem_map.mp ((o.sort_perm d.items).mem_iff.mp hitem)
    exact hnames l hl
  rw [hread]
  refine ⟨o.sort_perm d.items, o.sort_sorted d.items, fun hapart => ?_⟩
  have hnodup : (d.items.map Prod.fst).Nodup := by
    rw [stateAt, List.take_length] at hd
    have hfaithful := (((holds_run o steps).locals t).dumps d hd).2
    have hperm := hfaithful.perm.map Prod.snd
    rw [List.map_map] at hperm
    rw [Dump.items, List.map_map]
    exact hperm.nodup_iff.mpr (nodup_of_apart (holds_run o (steps.take d.since)).shared hapart)
  refine ⟨?_, fun o' d' hperm => ?_⟩
  · have hsorted : ((o.sort d.items).map Prod.fst).Nodup :=
      ((o.sort_perm d.items).map _).nodup_iff.mpr hnodup
    refine ((o.sort_sorted d.items).and (List.pairwise_map.mp hsorted)).imp fun ⟨hle, hne⟩ => ?_
    by_contra hlt
    exact hne (List.le_antisymm hle hlt)
  · rw [Dump.text, Dump.text, sort_eq_sort o o' hperm.symm hnodup]

/-- A thread increments the counter `b`, sets the gauge `a`, and dumps both. -/
def countedAndDumped : List (ℕ × Call) :=
  List.replicate 5 (0, .lookup .counter ['b'.toUInt8]) ++ [(0, .update 0 (.inc 3))] ++
    List.replicate 5 (0, .lookup .gauge ['a'.toUInt8]) ++ [(0, .update 1 (.set (-2)))] ++
    List.replicate 5 (0, .dumpAll)

/-- What it loads. -/
def dumpOfBoth : Dump where
  since := 13
  upTo := 16
  loads := [⟨.counter, ['b'.toUInt8], 3, 14⟩, ⟨.gauge, ['a'.toUInt8], -2, 15⟩]

/-- The rule for this dump. -/
theorem dump_reads_back_sample :
    let read := readText (dumpOfBoth.text insertionOrder)
    read.Perm [(['b'.toUInt8], 3), (['a'.toUInt8], -2)] ∧
      read.Pairwise fun a b => a.1 < b.1 := by
  have h := dump_reads_back insertionOrder countedAndDumped
    (show dumpOfBoth ∈ ((stateAt insertionOrder countedAndDumped
      countedAndDumped.length).locals 0).dumps by decide +kernel) (by decide +kernel)
  exact ⟨h.1, (h.2.2 (by decide +kernel)).1⟩

end MetricsRegistry

end QuantTrade
