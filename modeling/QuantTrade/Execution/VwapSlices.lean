import QuantTrade.Execution.VwapBounds

/-!
# What the volume-weighted execution sends

The targets are whatever the profile and the fills make of them; what is sent is clamped in the same
way as in the time-weighted execution.  So with up to 128 slices the child orders add up to the
quantity exactly when it has a lot for each slice before the last one (`dispatchesExactly_iff`).
-/

namespace QuantTrade

namespace Vwap

variable {F : Type} {v w : Vwap F}

/-- The cumulative quantity of the child orders. -/
def dispatchedSum (v : Vwap F) : ℤ :=
  (v.orders.map OrderRequest.qty).sum

/-- The child orders execute the parent quantity: each has a lot, they never exceed the quantity,
and add up to it in the end. -/
structure DispatchesExactly (v : Vwap F) : Prop where
  one_le : ∀ o ∈ v.orders, 1 ≤ o.qty
  sum_le : v.dispatchedSum ≤ v.totalQty
  done : v.isDone = true → v.dispatchedSum = v.totalQty

/-- A call that can follow `start`: a `tick`, or the report of a fill. -/
def Call.AfterStart : Call → Prop
  | .start _ => False
  | .tick _ _ => True
  | .onFill fillQty => 0 ≤ fillQty

/-- How far the quantity is sent. -/
def progress (v : Vwap F) : Slicing.Progress where
  total := v.totalQty
  slices := v.slices
  index := v.sliceIndex
  sent := v.dispatchedQty
  parts := v.orders.map OrderRequest.qty

/-- The execution is exact as a matter of its slices. -/
lemma dispatchesExactly_of_exact (h : v.progress.Exact) : v.DispatchesExactly where
  one_le o ho := h.one_le o.qty (List.mem_map_of_mem ho)
  sum_le := h.sum_le
  done hdone := (h.done (of_decide_eq_true hdone)).1

/-- A slice takes the quantity that the guard leaves. -/
lemma nextQty?_eq_some {qty : ℤ} (h : v.nextQty? = some qty) :
    ∃ target, qty = v.progress.part target := by
  unfold nextQty? at h
  split_ifs at h with hlast
  · obtain rfl := Option.some_inj.mp h
    exact ⟨0, (if_pos hlast).symm⟩
  · obtain ⟨target, -, rfl⟩ := Option.map_eq_some_iff.mp h
    exact ⟨target, (if_neg hlast).symm⟩

/-- To send a slice is to hand it out. -/
lemma progress_dispatch {target : ℤ} (hindex : v.sliceIndex < v.slices) (stamp : ℕ) :
    (v.dispatch (v.progress.part target) stamp).progress = v.progress.slice target := by
  unfold dispatch
  by_cases hpos : 0 < v.progress.part target
  · rw [if_pos hpos, Slicing.Progress.slice_of_pos hindex hpos]
    simp [progress, request]
  · rw [if_neg hpos, Slicing.Progress.slice_of_not_pos hindex hpos]
    rfl

variable [Doubles F]

/-- A slice that is due is handed out; the targets are no matter. -/
lemma progress_tick? {now stamp : ℕ} {due : Bool} (h : v.tick? now stamp = some (due, w)) :
    due = false ∧ w.progress = v.progress ∨
      ∃ target, w.progress = v.progress.slice target := by
  rcases tick?_eq_some h with ⟨hdue, rfl⟩ | ⟨-, hindex, targetQty, qty, rfl, hqty, -⟩
  · exact Or.inl ⟨hdue, rfl⟩
  · obtain ⟨target, rfl⟩ := nextQty?_eq_some hqty
    exact Or.inr ⟨target, progress_dispatch (v := { v with targetQty := targetQty }) hindex stamp⟩

/-- The calls after `start` do no more than hand out slices. -/
lemma implements_call? :
    Slicing.Implements (Transition.total (call? (F := F))) progress Call.AfterStart := by
  intro v c hc
  rw [Transition.total]
  cases hw : v.call? c with
  | none => exact Or.inl rfl
  | some w =>
    rw [Option.getD_some]
    cases c with
    | start now => exact hc.elim
    | onFill fillQty =>
      obtain rfl := Option.some_inj.mp hw
      exact Or.inl rfl
    | tick now stamp =>
      obtain ⟨⟨due, u⟩, hu, rfl⟩ := Option.map_eq_some_iff.mp hw
      exact (progress_tick? hu).imp And.right id

/-- With no more slices than cells, no call fails. -/
lemma Ready.exists_call? (h : v.Ready) (hslices : v.slices ≤ kVwapMaxSlices) (c : Call) :
    ∃ w, v.call? c = some w := by
  refine Option.isSome_iff_exists.mp ((h.isSome_call?_iff c).mpr ?_)
  cases c with
  | start now => trivial
  | onFill fillQty => trivial
  | tick now stamp => exact fun _ _ => Or.inl hslices

/-- The number of slices never changes. -/
lemma slices_call? {c : Call} (h : v.call? c = some w) : w.slices = v.slices := by
  cases c with
  | start now =>
    obtain rfl := Option.some_inj.mp h
    rfl
  | onFill fillQty =>
    obtain rfl := Option.some_inj.mp h
    rfl
  | tick now stamp =>
    obtain ⟨⟨due, u⟩, hu, rfl⟩ := Option.map_eq_some_iff.mp h
    rcases tick?_eq_some hu with ⟨-, rfl⟩ | ⟨-, -, targetQty, qty, rfl, -, -⟩
    · rfl
    · exact (dispatch_frame _ qty stamp).1

/-- The states in which no call fails. -/
def Safe (v : Vwap F) : Prop :=
  v.Ready ∧ v.slices ≤ kVwapMaxSlices

lemma Safe.total (h : v.Safe) (c : Call) : Safe (Transition.total call? v c) := by
  obtain ⟨w, hw⟩ := h.1.exists_call? h.2 c
  rw [Transition.total, hw, Option.getD_some]
  exact ⟨h.1.call? hw, (slices_call? hw).trans_le h.2⟩

/-- In these states a run is one of the total steps. -/
lemma Safe.run?_eq (h : v.Safe) (calls : List Call) :
    v.run? calls = some (Transition.run (Transition.total call?) v calls) := by
  have hall : (v.run? calls).isSome := by
    rw [run?, Transition.isSome_foldlM_iff]
    refine (Transition.admissible_congr_of_invariant (D := fun _ _ => True) (P := Safe)
      (fun u c hu => iff_of_true ?_ trivial) (fun u c _ hu => hu.total c) h).mpr
      (Transition.admissible_true v _)
    exact Option.isSome_iff_exists.mpr (hu.1.exists_call? hu.2 c)
  obtain ⟨w, hw⟩ := Option.isSome_iff_exists.mp hall
  rw [hw, Transition.run_eq_of_foldlM hw]

/-- A call at the end of time hands out a slice. -/
lemma Safe.progress_lastCall (h : v.Safe) :
    ∃ target, (Transition.total call? v lastCall).progress = v.progress.slice target := by
  obtain ⟨w, hw⟩ := h.1.exists_call? h.2 lastCall
  rw [Transition.total, hw, Option.getD_some]
  obtain ⟨⟨due, u⟩, hu, rfl⟩ := Option.map_eq_some_iff.mp hw
  rcases progress_tick? hu with ⟨rfl, hsame⟩ | hslice
  · refine ⟨0, hsame.trans ?_⟩
    have hdue : v.thresholdNs ≤ 2 ^ 64 - 1 := Nat.le_pred_of_lt (Nat.mod_lt _ (by decide))
    by_cases hdone : v.sliceIndex ≥ v.slices
    · exact (if_pos hdone).symm
    · rw [tick?, if_neg hdone, if_neg (not_lt.mpr hdue)] at hu
      obtain ⟨t, -, hnext⟩ := Option.bind_eq_some_iff.mp hu
      obtain ⟨qty, -, hsend⟩ := Option.bind_eq_some_iff.mp hnext
      exact absurd (Prod.mk.inj (Option.some_inj.mp hsend)).1 (by decide)
  · exact hslice

/-- **Exact execution.**  Whatever the volume profile is, whatever the doubles make of it, and
whenever `tick` and `on_fill` are called, the child orders of all runs execute the parent quantity
exactly if and only if it has a lot for each slice before the last one. -/
theorem dispatchesExactly_iff (instrumentId : ℕ) (side : Side) {totalQty : ℤ}
    (htotal : 1 ≤ totalQty) (profile : Option (ℤ → F)) {slices : ℤ} (hslices : 1 ≤ slices)
    (hmax : slices ≤ kVwapMaxSlices) (durationNs : ℕ) :
    ∃ v, init? instrumentId side totalQty profile slices durationNs = some v ∧
      ((∀ startNs calls, (∀ c ∈ calls, c.AfterStart) →
          ∃ w, (v.start startNs).run? calls = some w ∧ w.DispatchesExactly) ↔
        slices - 1 ≤ totalQty) := by
  obtain ⟨v, hv, hready, hsame⟩ :=
    exists_init? instrumentId side totalQty profile slices durationNs
  have hcount : (blank instrumentId side totalQty slices durationNs : Vwap F).slices = slices :=
    if_pos hslices
  have hslices' : v.slices = slices := by
    rw [SameBut] at hsame
    rw [hsame]
    exact hcount
  have hprogress : ∀ now, (v.start now).progress = Slicing.init totalQty slices := by
    intro now
    rw [← hslices']
    rw [SameBut] at hsame
    rw [hsame]
    rfl
  have hsafe : ∀ now, (v.start now).Safe :=
    fun now => ⟨hready.call? (c := .start now) rfl, hslices'.trans_le hmax⟩
  refine ⟨v, hv, ?_, ?_⟩
  · intro h
    refine Slicing.le_of_sum_le (P := Safe) (fun u hu => hu.total lastCall)
      (fun u hu => hu.progress_lastCall) (hsafe 0) (hprogress 0) (by omega) fun n => ?_
    have hafter : ∀ c ∈ List.replicate n lastCall, c.AfterStart := by
      intro c hc
      rw [List.eq_of_mem_replicate hc]
      trivial
    obtain ⟨w, hw, hexact⟩ := h 0 _ hafter
    rw [(hsafe 0).run?_eq] at hw
    obtain rfl := Option.some_inj.mp hw
    exact hexact.sum_le
  · intro hlots now calls hcalls
    refine ⟨_, (hsafe now).run?_eq calls, dispatchesExactly_of_exact ?_⟩
    refine implements_call?.exact_run ?_ hcalls
    rw [hprogress]
    exact Slicing.Progress.funded_init (by omega) hlots

/-- The rule at 10 lots in 4 slices, with the shares of a profile in exact arithmetic. -/
theorem dispatchesExactly_iff_tenLots :
    ∃ v, init? 1 .buy 10 (some fun _ => (1 / 4 : ℚ)) 4 40 = some v ∧
      ((∀ startNs calls, (∀ c ∈ calls, c.AfterStart) →
          ∃ w, (v.start startNs).run? calls = some w ∧ w.DispatchesExactly) ↔
        4 - 1 ≤ (10 : ℤ)) :=
  dispatchesExactly_iff 1 .buy (by decide) (some fun _ => (1 / 4 : ℚ)) (by decide) (by decide) 40

/-- One lot in three slices: the first two calls send a lot each. -/
theorem not_dispatchesExactly_oneLot :
    ¬∀ (F : Type) [Doubles F] (instrumentId : ℕ) (side : Side) (totalQty : ℤ), 1 ≤ totalQty →
      ∀ (profile : Option (ℤ → F)) (slices : ℤ), 1 ≤ slices → slices ≤ kVwapMaxSlices →
      ∀ durationNs startNs calls, (∀ c ∈ calls, Call.AfterStart c) →
      ∃ v w, init? instrumentId side totalQty profile slices durationNs = some v ∧
        (v.start startNs).run? calls = some w ∧ w.DispatchesExactly := by
  intro h
  obtain ⟨v, w, hv, hw, hexact⟩ := h ℚ 1 .buy 1 (by decide) none 3 (by decide) (by decide) 30 0
    [lastCall, lastCall] (by simp [lastCall, Call.AfterStart])
  have hsent : ((init? 1 .buy 1 (none : Option (ℤ → ℚ)) 3 30).bind fun v =>
      (v.start 0).run? [lastCall, lastCall]).map (fun w => (w.dispatchedSum, w.totalQty)) =
        some (2, 1) := by decide +kernel
  rw [hv, Option.bind_some, hw, Option.map_some] at hsent
  obtain ⟨hsum, htotal⟩ := Prod.mk.inj (Option.some_inj.mp hsent)
  have hle := hexact.sum_le
  rw [hsum, htotal] at hle
  exact absurd hle (by decide)

end Vwap

end QuantTrade
