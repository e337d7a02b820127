import QuantTrade.Execution.Twap
import QuantTrade.Execution.VwapSlices
import QuantTrade.Library.Pacing

/-!
# The slices are on schedule

`Twap` and `Vwap` wait in `tick` for the beginning of a slice in the same way: one interval after
the other from the start on, and one slice a call.  So the slices sent are those begun at some
moment and the calls since, and no child order is sent before its slice begins (`Twap.on_schedule`,
`Vwap.slices_on_schedule`).
-/

namespace QuantTrade

open Pacing (Schedule moments)

/-- What the schedule of an execution is about. -/
structure Pace where
  startNs : ℕ
  intervalNs : ℕ
  slices : ℤ
  sliceIndex : ℤ
  orders : List OrderRequest

namespace Pace

/-- The schedule. -/
def schedule (p : Pace) : Schedule where
  start := p.startNs
  interval := p.intervalNs
  slices := p.slices.toNat

/-- The beginning of the next slice, in the arithmetic of 64 bits. -/
def thresholdNs (p : Pace) : ℕ :=
  (p.startNs + p.sliceIndex.toNat * p.intervalNs) % 2 ^ 64

/-- What a call of `tick` does that reads `now` from the clock, and then `stamp`: it waits, or a
slice is over and at most one order is sent. -/
def Ticks (p : Pace) (now stamp : ℕ) (p' : Pace) : Prop :=
  if p.slices ≤ p.sliceIndex ∨ now < p.thresholdNs then p' = p
  else ∃ sent : List OrderRequest, sent.length ≤ 1 ∧ (∀ o ∈ sent, o.strategyTsNs = stamp) ∧
    p' = { p with sliceIndex := p.sliceIndex + 1, orders := p.orders ++ sent }

/-- The slices have the times of the schedule `c`, which fits into 64 bits, and no order was sent
before its slice began. -/
structure OnTime (c : Schedule) (p : Pace) : Prop where
  schedule_eq : p.schedule = c
  slices_nonneg : 0 ≤ p.slices
  index_nonneg : 0 ≤ p.sliceIndex
  fits : c.start + c.slices * c.interval < 2 ^ 64
  length_le : p.orders.length ≤ p.sliceIndex.toNat
  late : ∀ j o, p.orders[j]? = some o → c.start + j * c.interval ≤ o.strategyTsNs

variable {c : Schedule} {p p' : Pace}

/-- The next slice has begun when the call does not wait. -/
lemma OnTime.lt_begun_iff (h : p.OnTime c) (now : ℕ) :
    p.sliceIndex.toNat < c.begun now ↔ ¬(p.slices ≤ p.sliceIndex ∨ now < p.thresholdNs) := by
  have hslices : c.slices = p.slices.toNat := by rw [← h.schedule_eq]; rfl
  have hnonneg := h.slices_nonneg
  have hindex := h.index_nonneg
  rw [Schedule.lt_begun_iff, not_or, not_le, not_lt, hslices]
  have hmore : p.sliceIndex.toNat < p.slices.toNat ↔ p.sliceIndex < p.slices := by omega
  rw [hmore]
  refine and_congr_right fun hless => ?_
  have hfit : p.startNs + p.sliceIndex.toNat * p.intervalNs < 2 ^ 64 := by
    refine lt_of_le_of_lt ?_ h.fits
    rw [← h.schedule_eq]
    exact Nat.add_le_add_left (Nat.mul_le_mul_right _ (by simp only [schedule]; omega)) _
  rw [thresholdNs, Nat.mod_eq_of_lt hfit, ← h.schedule_eq]
  rfl

/-- A call takes the next slice when it has begun. -/
lemma OnTime.index_of_ticks (h : p.OnTime c) {now stamp : ℕ} (hticks : p.Ticks now stamp p') :
    p'.sliceIndex.toNat =
      if p.sliceIndex.toNat < c.begun now then p.sliceIndex.toNat + 1
      else p.sliceIndex.toNat := by
  have hindex := h.index_nonneg
  by_cases hbegun : p.sliceIndex.toNat < c.begun now
  · rw [if_pos hbegun]
    rw [Ticks, if_neg ((h.lt_begun_iff now).mp hbegun)] at hticks
    obtain ⟨sent, -, -, rfl⟩ := hticks
    dsimp only
    omega
  · rw [if_neg hbegun]
    rw [Ticks, if_pos (not_not.mp fun hnot => hbegun ((h.lt_begun_iff now).mpr hnot))] at hticks
    rw [hticks]

/-- A call sends no order too early. -/
lemma OnTime.ticks (h : p.OnTime c) {now stamp : ℕ} (hstamp : now ≤ stamp)
    (hticks : p.Ticks now stamp p') : p'.OnTime c := by
  by_cases hwait : p.slices ≤ p.sliceIndex ∨ now < p.thresholdNs
  · rw [Ticks, if_pos hwait] at hticks
    rw [hticks]
    exact h
  · have hbegun := Schedule.lt_begun_iff.mp ((h.lt_begun_iff now).mpr hwait)
    rw [Ticks, if_neg hwait] at hticks
    obtain ⟨sent, hone, hsent, rfl⟩ := hticks
    have hlength := h.length_le
    have hindex := h.index_nonneg
    refine ⟨h.schedule_eq, h.slices_nonneg, by dsimp only; omega, h.fits, ?_, ?_⟩
    · rw [List.length_append]
      dsimp only
      omega
    · intro j o hj
      rcases Nat.lt_or_ge j p.orders.length with hbefore | hbehind
      · rw [List.getElem?_append_left hbefore] at hj
        exact h.late j o hj
      · -- the order of this call, whose place is not behind the slice
        rw [List.getElem?_append_right hbehind] at hj
        have hmem := List.mem_of_getElem? hj
        have hplace : j - p.orders.length < sent.length :=
          (List.getElem?_eq_some_iff.mp hj).1
        rw [hsent o hmem]
        refine le_trans ?_ (hbegun.2.trans hstamp)
        exact Nat.add_le_add_left (Nat.mul_le_mul_right _ (by omega)) _

end Pace

/-- A system whose calls with a reading of the clock are calls of `tick` on its pace; the others
leave its pace alone. -/
structure Paced {σ α : Type} (step : σ → α → σ) (pace : σ → Pace) (clock : α → Option (ℕ × ℕ))
    (P : σ → Prop) (Q : α → Prop) : Prop where
  keep : ∀ s a, P s → Q a → P (step s a)
  ticks : ∀ s a now stamp, P s → Q a → clock a = some (now, stamp) →
    (pace s).Ticks now stamp (pace (step s a))
  other : ∀ s a, P s → Q a → clock a = none → pace (step s a) = pace s

/-- The readings of the clock never go back. -/
def ClockRuns {α : Type} (clock : α → Option (ℕ × ℕ)) (as : List α) : Prop :=
  (as.filterMap fun a => (clock a).map Prod.fst).Pairwise (· ≤ ·) ∧
    ∀ a ∈ as, ∀ now stamp, clock a = some (now, stamp) → now ≤ stamp

/-- **On schedule.**  The slices of a paced system are those begun at some moment of the run and the
calls since, whichever moment makes this the least, and no order is before its slice. -/
theorem Paced.isLeast_sliceIndex {σ α : Type} {step : σ → α → σ} {pace : σ → Pace}
    {clock : α → Option (ℕ × ℕ)} {P : σ → Prop} {Q : α → Prop} (h : Paced step pace clock P Q)
    {s : σ} {c : Schedule} (hs : P s) (hpace : (pace s).OnTime c) (hindex : (pace s).sliceIndex = 0)
    {as : List α} (has : ∀ a ∈ as, Q a) (hclock : ClockRuns clock as) :
    IsLeast (moments (fun a => (clock a).map Prod.fst) c as)
        (pace (Transition.run step s as)).sliceIndex.toNat ∧
      (pace (Transition.run step s as)).OnTime c := by
  have hfollows : Pacing.Follows step (fun s => (pace s).sliceIndex.toNat)
      (fun a => (clock a).map Prod.fst) c (fun s => P s ∧ (pace s).OnTime c)
      (fun a => Q a ∧ ∀ now stamp, clock a = some (now, stamp) → now ≤ stamp) := by
    constructor
    · rintro s a ⟨hP, htime⟩ ⟨hQ, hstamp⟩
      refine ⟨h.keep s a hP hQ, ?_⟩
      rcases hread : clock a with _ | ⟨now, stamp⟩
      · rw [h.other s a hP hQ hread]
        exact htime
      · exact htime.ticks (hstamp now stamp hread) (h.ticks s a now stamp hP hQ hread)
    · rintro s a now ⟨hP, htime⟩ ⟨hQ, -⟩ hread
      obtain ⟨⟨_, stamp⟩, hboth, rfl⟩ := Option.map_eq_some_iff.mp hread
      exact htime.index_of_ticks (h.ticks s a _ stamp hP hQ hboth)
    · rintro s a ⟨hP, -⟩ ⟨hQ, -⟩ hread
      rw [h.other s a hP hQ (Option.map_eq_none_iff.mp hread)]
  obtain ⟨hleast, -, htime⟩ := hfollows.isLeast_index ⟨hs, hpace⟩ (by rw [hindex]; rfl)
    (fun a ha => ⟨has a ha, hclock.2 a ha⟩) hclock.1
  exact ⟨hleast, htime⟩

/-! ## The time-weighted execution -/

namespace Twap

/-- The pace of an execution. -/
def pace (t : Twap) : Pace where
  startNs := t.startNs
  intervalNs := t.intervalNs
  slices := t.slices
  sliceIndex := t.sliceIndex
  orders := t.orders

/-- What a call reads from the clock. -/
def clock (e : Tick) : Option (ℕ × ℕ) :=
  some (e.now, e.stamp)

lemma paced : Paced (fun t e => (tick t e).2) pace clock (fun _ => True) fun _ => True := by
  refine ⟨fun _ _ _ _ => trivial, ?_, fun _ _ _ _ hread => absurd hread (Option.some_ne_none _)⟩
  rintro t e now stamp - - hread
  obtain ⟨rfl, rfl⟩ := Prod.mk.inj (Option.some_inj.mp hread)
  unfold tick
  by_cases hdone : t.sliceIndex ≥ t.slices
  · rw [if_pos hdone, Pace.Ticks]
    exact (if_pos (Or.inl hdone)).mpr rfl
  · rw [if_neg hdone]
    by_cases hwait : e.now < t.thresholdNs
    · rw [if_pos hwait, Pace.Ticks]
      exact (if_pos (Or.inr hwait)).mpr rfl
    · rw [if_neg hwait, Pace.Ticks, if_neg (by rintro (h | h); exacts [hdone h, hwait h])]
      obtain ⟨state, hstate⟩ := t.nextQty_snd e.scaled
      dsimp only
      rw [hstate]
      by_cases hpos : (t.nextQty e.scaled).1 > 0
      · rw [if_pos hpos]
        exact ⟨[_], le_rfl, fun o ho => by rw [List.mem_singleton.mp ho]; rfl, rfl⟩
      · rw [if_neg hpos]
        exact ⟨[], Nat.zero_le 1, nofun, by simp [pace]⟩

/-- **The schedule of a time-weighted execution.**  After any calls of `tick`, with readings of the
clock that do not go back and a schedule that fits into 64 bits, the number of slices sent is the
least, over all moments of the run, of the slices begun by then and the calls since; and no child
order is stamped before its slice begins. -/
theorem on_schedule (instrumentId : ℕ) (side : Side) (totalQty : ℤ) (durationNs : ℕ) (slices : ℤ)
    (startNs : ℕ)
    (hfits : startNs + (init instrumentId side totalQty durationNs slices).slices.toNat *
      (init instrumentId side totalQty durationNs slices).intervalNs < 2 ^ 64)
    {ticks : List Tick} (hclock : ClockRuns clock ticks) :
    IsLeast
        (moments (fun e => (clock e).map Prod.fst)
          ((init instrumentId side totalQty durationNs slices).start startNs).pace.schedule ticks)
        (((init instrumentId side totalQty durationNs slices).start startNs).run
          ticks).sliceIndex.toNat ∧
      (((init instrumentId side totalQty durationNs slices).start startNs).run ticks).pace.OnTime
        ((init instrumentId side totalQty durationNs slices).start startNs).pace.schedule := by
  have hslices : 0 ≤ (init instrumentId side totalQty durationNs slices).slices := by
    change 0 ≤ if slices > 0 then slices else 1
    split_ifs <;> omega
  have htime : ((init instrumentId side totalQty durationNs slices).start startNs).pace.OnTime
      ((init instrumentId side totalQty durationNs slices).start startNs).pace.schedule :=
    ⟨rfl, hslices, le_rfl, hfits, Nat.zero_le _,
      fun j o hj => absurd hj (by simp [pace, start, init])⟩
  exact paced.isLeast_sliceIndex trivial htime rfl (fun _ _ => trivial) hclock

/-- Ten lots in four slices of 25 ns, with calls at 0, 60 and 61 ns: the second slice was late. -/
theorem on_schedule_example :
    (((init 1 .buy 10 100 4).start 0).run
      [⟨0, id, 0⟩, ⟨60, id, 60⟩, ⟨61, id, 61⟩]).pace.OnTime
        ((init 1 .buy 10 100 4).start 0).pace.schedule :=
  (on_schedule 1 .buy 10 100 4 0 (by decide)
    (show ClockRuns clock [⟨0, id, 0⟩, ⟨60, id, 60⟩, ⟨61, id, 61⟩] from
      ⟨by decide, by
        intro e he now stamp hread
        obtain ⟨rfl, rfl⟩ := Prod.mk.inj (Option.some_inj.mp hread)
        simp only [List.mem_cons, List.not_mem_nil, or_false] at he
        rcases he with rfl | rfl | rfl <;> exact le_rfl⟩)).2

end Twap

/-! ## The volume-weighted execution -/

namespace Vwap

variable {F : Type}

/-- The pace of an execution. -/
def pace (v : Vwap F) : Pace where
  startNs := v.startNs
  intervalNs := v.intervalNs
  slices := v.slices
  sliceIndex := v.sliceIndex
  orders := v.orders

/-- What a call reads from the clock. -/
def clock : Call → Option (ℕ × ℕ)
  | .tick now stamp => some (now, stamp)
  | _ => none

/-- What sending a slice does to the pace. -/
lemma pace_dispatch (v : Vwap F) (qty : ℤ) (stamp : ℕ) :
    ∃ sent : List OrderRequest, sent.length ≤ 1 ∧ (∀ o ∈ sent, o.strategyTsNs = stamp) ∧
      (v.dispatch qty stamp).pace =
        { v.pace with sliceIndex := v.sliceIndex + 1, orders := v.orders ++ sent } := by
  unfold dispatch
  by_cases hpos : qty > 0
  · rw [if_pos hpos]
    exact ⟨[_], le_rfl, fun o ho => by rw [List.mem_singleton.mp ho]; rfl, rfl⟩
  · rw [if_neg hpos]
    exact ⟨[], Nat.zero_le 1, nofun, by simp [pace]⟩

variable [Doubles F]

lemma paced : Paced (Transition.total call?) (pace : Vwap F → Pace) clock Safe Call.AfterStart := by
  refine ⟨fun v c hsafe _ => hsafe.total c, ?_, ?_⟩
  · rintro v (now' | ⟨now', stamp'⟩ | fillQty) now stamp hsafe - hread
    · exact absurd hread.symm (Option.some_ne_none _)
    · obtain ⟨rfl, rfl⟩ := Prod.mk.inj (Option.some_inj.mp hread)
      obtain ⟨w, hw⟩ := hsafe.1.exists_call? hsafe.2 (.tick now' stamp')
      rw [Transition.total, hw, Option.getD_some]
      obtain ⟨⟨due, u⟩, hu, rfl⟩ := Option.map_eq_some_iff.mp hw
      by_cases hwait : v.slices ≤ v.sliceIndex ∨ now' < v.thresholdNs
      · have hsame : u = v := by
          rcases hwait with hdone | hearly
          · rw [tick?, if_pos hdone] at hu
            exact (Prod.mk.inj (Option.some_inj.mp hu)).2.symm
          · rw [tick?] at hu
            split_ifs at hu with hdone
            · exact (Prod.mk.inj (Option.some_inj.mp hu)).2.symm
            · exact (Prod.mk.inj (Option.some_inj.mp hu)).2.symm
        rw [hsame, Pace.Ticks]
        exact (if_pos hwait).mpr rfl
      · obtain ⟨hmore, hdue⟩ := not_or.mp hwait
        rw [Pace.Ticks]
        refine (if_neg hwait).mpr ?_
        rw [tick?, if_neg hmore, if_neg hdue] at hu
        obtain ⟨r, hr, hnext⟩ := Option.bind_eq_some_iff.mp hu
        obtain ⟨qty, -, hsend⟩ := Option.bind_eq_some_iff.mp hnext
        obtain ⟨targetQty, rfl, -⟩ := maybeRebalance?_eq_some hr
        obtain ⟨-, rfl⟩ := Prod.mk.inj (Option.some_inj.mp hsend)
        exact pace_dispatch _ qty stamp'
    · exact absurd hread.symm (Option.some_ne_none _)
  · rintro v (now | ⟨now, stamp⟩ | fillQty) - hafter hread
    · exact absurd hafter id
    · exact absurd hread (Option.some_ne_none _)
    · rfl

/-- **The schedule of a volume-weighted execution.**  The constructor succeeds; and after any calls
of `tick` and `on_fill`, whatever the profile and the fills are, with readings of the clock that do
not go back and a schedule that fits into 64 bits: no call fails, the number of slices sent is the
least, over all moments of the run, of the slices begun by then and the calls since, and no child
order is stamped before its slice begins. -/
theorem slices_on_schedule (instrumentId : ℕ) (side : Side) (totalQty : ℤ)
    (profile : Option (ℤ → F)) {slices : ℤ} (hslices : 1 ≤ slices) (hmax : slices ≤ kVwapMaxSlices)
    (durationNs startNs : ℕ)
    (hfits : startNs + slices.toNat * (durationNs / slices.toNat) < 2 ^ 64) {calls : List Call}
    (hcalls : ∀ c ∈ calls, c.AfterStart) (hclock : ClockRuns clock calls) :
    ∃ v w, init? instrumentId side totalQty profile slices durationNs = some v ∧
      (v.start startNs).run? calls = some w ∧
      IsLeast
        (moments (fun c => (clock c).map Prod.fst)
          ⟨startNs, durationNs / slices.toNat, slices.toNat⟩ calls)
        w.sliceIndex.toNat ∧
      w.pace.OnTime ⟨startNs, durationNs / slices.toNat, slices.toNat⟩ := by
  obtain ⟨v, hv, hready, hsame⟩ :=
    exists_init? instrumentId side totalQty profile slices durationNs
  rw [SameBut] at hsame
  have hpos : slices > 0 := hslices
  have hpace : (v.start startNs).pace =
      { startNs := startNs
        intervalNs := durationNs / slices.toNat
        slices := slices
        sliceIndex := 0
        orders := [] } := by
    rw [hsame]
    simp [pace, start, blank, hpos]
  have hsafe : (v.start startNs).Safe := by
    refine ⟨hready.call? (c := .start startNs) rfl, ?_⟩
    have hcount : (v.start startNs).slices = slices := congrArg Pace.slices hpace
    exact hcount.trans_le hmax
  have htime : (v.start startNs).pace.OnTime
      ⟨startNs, durationNs / slices.toNat, slices.toNat⟩ := by
    rw [hpace]
    exact ⟨rfl, by dsimp only; omega, le_rfl, hfits, Nat.zero_le _,
      fun j o hj => absurd hj (by simp)⟩
  obtain ⟨hleast, hlate⟩ := paced.isLeast_sliceIndex hsafe htime (by rw [hpace]) hcalls hclock
  exact ⟨v, _, hv, hsafe.run?_eq calls, hleast, hlate⟩

/-- Ten lots in four slices of 25 ns, with a fill between two calls. -/
theorem slices_on_schedule_withFill :
    ∃ v w, init? 1 .buy 10 (some fun _ => (1 / 4 : ℚ)) 4 100 = some v ∧
      (v.start 0).run? [.tick 0 0, .onFill 2, .tick 60 61] = some w ∧
      IsLeast
        (moments (fun c => (clock c).map Prod.fst)
          ⟨0, 100 / (4 : ℤ).toNat, (4 : ℤ).toNat⟩ [.tick 0 0, .onFill 2, .tick 60 61])
        w.sliceIndex.toNat ∧
      w.pace.OnTime ⟨0, 100 / (4 : ℤ).toNat, (4 : ℤ).toNat⟩ :=
  slices_on_schedule 1 .buy 10 (some fun _ => (1 / 4 : ℚ)) (by decide) (by decide) 100 0 (by decide)
    (by simp [Call.AfterStart]) ⟨by simp [clock], by
      intro c hc now stamp hread
      simp only [List.mem_cons, List.not_mem_nil, or_false] at hc
      rcases hc with rfl | rfl | rfl
      · obtain ⟨rfl, rfl⟩ := Prod.mk.inj (Option.some_inj.mp hread)
        exact le_rfl
      · exact absurd hread.symm (Option.some_ne_none _)
      · obtain ⟨rfl, rfl⟩ := Prod.mk.inj (Option.some_inj.mp hread)
        decide⟩

end Vwap

end QuantTrade
