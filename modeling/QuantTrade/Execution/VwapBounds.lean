import QuantTrade.Execution.Vwap
import QuantTrade.Library.Transition

/-!
# The arrays of the volume-weighted execution

The constructor fills in no more than 128 cells of the arrays, but `tick` and `maybe_rebalance` go
as far as there are slices.  With up to 128 slices no access fails.  With 129 only a rebalancing
leaves the arrays, and with more the slice of index 128 does at the latest (`isSome_run?_iff`).
-/

namespace QuantTrade

namespace Vwap

variable {F : Type} {v w : Vwap F}

/-- The same execution up to the contents of the arrays. -/
def SameBut (v w : Vwap F) : Prop :=
  w = { v with volumeProfile := w.volumeProfile, targetQty := w.targetQty }

/-- The cells of both arrays are written up to the index. -/
def WrittenTo (v : Vwap F) (n : ℤ) : Prop :=
  v.volumeProfile.WrittenTo n ∧ v.targetQty.WrittenTo n

/-- What holds between two calls: there is a slice, the next one is not far behind the arrays, and
the cells of the slices are written. -/
structure Ready (v : Vwap F) : Prop where
  slices_pos : 0 < v.slices
  index_nonneg : 0 ≤ v.sliceIndex
  index_le : v.sliceIndex ≤ kVwapMaxSlices ∨ v.slices ≤ v.sliceIndex
  written : v.WrittenTo v.filledSlices

lemma filledSlices_le (v : Vwap F) : v.filledSlices ≤ kVwapMaxSlices := by
  unfold filledSlices
  split_ifs <;> omega

lemma filledSlices_pos (h : 0 < v.slices) : 0 < v.filledSlices := by
  unfold filledSlices
  split_ifs
  · exact h
  · decide

variable [Doubles F]

/-- The call stays inside of the arrays: when a slice is due, there are no more slices than cells,
or else nothing is rebalanced and the target of the slice is not needed or has a cell. -/
def Guarded (v : Vwap F) : Call → Prop
  | .start _ => True
  | .onFill _ => True
  | .tick now _ =>
    v.sliceIndex < v.slices → v.thresholdNs ≤ now →
      v.slices ≤ kVwapMaxSlices ∨ v.needsRebalance? ≠ some true ∧
        (v.sliceIndex < kVwapMaxSlices ∨ v.sliceIndex = v.slices - 1)

/-! ## The constructor -/

/-- A round of the constructor writes one more cell of each array. -/
lemma exists_assign? (profile : Option (ℤ → F)) (n assigned : ℤ) {i : ℤ} (hi : 0 ≤ i)
    (hcap : i < kVwapMaxSlices) (h : w.WrittenTo i) :
    ∃ s, assign? profile n (w, assigned) i = some s ∧ w.SameBut s.1 ∧ s.1.WrittenTo (i + 1) := by
  obtain ⟨volumeProfile, hprofile, hportion⟩ :=
    CheckedArray.exists_write? (a := w.volumeProfile) hi hcap (share profile n i)
  let target := Doubles.toInt (Doubles.ofInt w.totalQty * share profile n i)
  obtain ⟨targetQty, htargets, htarget⟩ :=
    CheckedArray.exists_write? (a := w.targetQty) hi hcap target
  refine ⟨({ w with volumeProfile := volumeProfile, targetQty := targetQty }, assigned + target),
    ?_, rfl, h.1.write?_succ hprofile, h.2.write?_succ htargets⟩
  simp only [assign?, hprofile, hportion, htargets, htarget, target, Option.bind_eq_bind,
    Option.bind_some]

/-- The constructor writes the cells of the slices, and nothing else. -/
lemma exists_fillIn? (profile : Option (ℤ → F)) (h : 0 < v.slices) :
    ∃ w, v.fillIn? profile = some w ∧ v.SameBut w ∧ w.WrittenTo v.filledSlices := by
  have hpos := filledSlices_pos h
  have hcap := v.filledSlices_le
  have hround : ∀ i (s : Vwap F × ℤ), 0 ≤ i → i < v.filledSlices - 1 →
      v.SameBut s.1 ∧ s.1.WrittenTo i →
      ∃ s', assign? profile v.filledSlices s i = some s' ∧
        v.SameBut s'.1 ∧ s'.1.WrittenTo (i + 1) := by
    rintro i ⟨u, assigned⟩ hi hlt ⟨hu, hwritten⟩
    obtain ⟨s', hs', hsame, hnext⟩ :=
      exists_assign? profile v.filledSlices assigned hi (by omega) hwritten
    refine ⟨s', hs', ?_, hnext⟩
    rw [SameBut] at hu hsame ⊢
    dsimp only at hu
    rw [hsame, hu]
  obtain ⟨⟨u, assigned⟩, hloop, hu, hwritten⟩ := CheckedArray.exists_foldlM_range
    (I := fun i (s : Vwap F × ℤ) => v.SameBut s.1 ∧ s.1.WrittenTo i)
    (show 0 ≤ v.filledSlices - 1 by omega) hround (s := (v, 0))
    ⟨rfl, CheckedArray.writtenTo_zero, CheckedArray.writtenTo_zero⟩
  obtain ⟨volumeProfile, hprofile, -⟩ :=
    CheckedArray.exists_write? (a := u.volumeProfile) (show 0 ≤ v.filledSlices - 1 by omega)
      (by omega) (share profile v.filledSlices (v.filledSlices - 1))
  obtain ⟨targetQty, htargets, -⟩ :=
    CheckedArray.exists_write? (a := u.targetQty) (show 0 ≤ v.filledSlices - 1 by omega)
      (by omega) (u.totalQty - assigned)
  refine ⟨{ u with volumeProfile := volumeProfile, targetQty := targetQty }, ?_, ?_, ?_⟩
  · simp only [fillIn?, hloop, hprofile, htargets, Option.bind_eq_bind, Option.bind_some]
  · rw [SameBut] at hu ⊢
    dsimp only at hu ⊢
    rw [hu]
  · have hlast := And.intro (hwritten.1.write?_succ hprofile) (hwritten.2.write?_succ htargets)
    rwa [Int.sub_add_cancel] at hlast

/-! ## Rebalancing -/

/-- The sum of shares that are written. -/
lemma exists_profileSum? {first last : ℤ} (hfirst : 0 ≤ first)
    (h : v.volumeProfile.WrittenTo last) : ∃ sum, v.profileSum? first last = some sum := by
  refine CheckedArray.exists_foldlM (fun i hi sum => ?_) _
  obtain ⟨hfrom, hto⟩ := Int.mem_range_iff.mp hi
  obtain ⟨portion, hportion⟩ := h.exists_read? (hfirst.trans hfrom) hto
  exact ⟨sum + portion, by rw [hportion]; rfl⟩

/-- A sum that goes beyond the array. -/
lemma profileSum?_eq_none {first last : ℤ} (hfirst : first ≤ kVwapMaxSlices)
    (hlast : kVwapMaxSlices < last) : v.profileSum? first last = none := by
  refine CheckedArray.foldlM_eq_none (i := kVwapMaxSlices) ?_ (fun sum => ?_) _
  · exact Int.mem_range_iff.mpr ⟨hfirst, hlast⟩
  · rw [CheckedArray.read?_eq_none le_rfl]
    rfl

omit [Doubles F] in
lemma Ready.index_le_filledSlices (h : v.Ready) (hindex : v.sliceIndex < v.slices) :
    v.sliceIndex ≤ v.filledSlices := by
  have hcap := h.index_le
  unfold filledSlices
  split_ifs <;> omega

/-- The tests of `maybe_rebalance` read shares that are written. -/
lemma Ready.exists_needsRebalance? (h : v.Ready) (hindex : v.sliceIndex < v.slices) :
    ∃ needed, v.needsRebalance? = some needed := by
  obtain ⟨sum, hsum⟩ := exists_profileSum? le_rfl
    (h.written.1.mono (h.index_le_filledSlices hindex))
  unfold needsRebalance?
  rw [hsum]
  split_ifs <;> exact ⟨_, rfl⟩

/-- With more slices than cells, the sum of the shares that are left fails. -/
lemma redistribute?_eq_none (hindex : v.sliceIndex ≤ kVwapMaxSlices)
    (hslices : kVwapMaxSlices < v.slices) : v.redistribute? = none := by
  rw [redistribute?, profileSum?_eq_none hindex hslices]
  rfl

/-- With no more slices than cells, every access of the redistribution succeeds. -/
lemma Ready.exists_redistribute? (h : v.Ready) (hindex : v.sliceIndex < v.slices)
    (hslices : v.slices ≤ kVwapMaxSlices) : ∃ w, v.redistribute? = some w := by
  have hnonneg := h.index_nonneg
  have hwritten : v.volumeProfile.WrittenTo v.slices := by
    refine h.written.1.mono ?_
    unfold filledSlices
    split_ifs <;> omega
  obtain ⟨sum, hsum⟩ := exists_profileSum? h.index_nonneg hwritten
  have hround : ∀ i ∈ Int.range v.sliceIndex (v.slices - 1),
      ∀ s, ∃ s', v.retarget? (v.totalQty - v.totalFilled) sum s i = some s' := by
    rintro i hi ⟨targetQty, assigned⟩
    obtain ⟨hfrom, hto⟩ := Int.mem_range_iff.mp hi
    obtain ⟨portion, hportion⟩ := hwritten.exists_read? (hnonneg.trans hfrom) (by omega)
    let target := Doubles.toInt (Doubles.ofInt (v.totalQty - v.totalFilled) * portion / sum)
    obtain ⟨targets, htargets, htarget⟩ :=
      CheckedArray.exists_write? (a := targetQty) (hnonneg.trans hfrom) (by omega) target
    refine ⟨(targets, assigned + target), ?_⟩
    simp only [retarget?, hportion, htargets, htarget, target, Option.bind_eq_bind,
      Option.bind_some]
  obtain ⟨⟨targetQty, assigned⟩, hloop⟩ := CheckedArray.exists_foldlM hround (v.targetQty, 0)
  obtain ⟨targets, htargets, -⟩ :=
    CheckedArray.exists_write? (a := targetQty) (show 0 ≤ v.slices - 1 by omega) (by omega)
      (v.totalQty - v.totalFilled - assigned)
  by_cases hzero : Doubles.le sum (Doubles.lit 0 : F) = true
  · exact ⟨v, by simp only [redistribute?, hsum, hzero, Option.bind_eq_bind, Option.bind_some,
      if_true]⟩
  · refine ⟨{ v with targetQty := targets }, ?_⟩
    simp only [redistribute?, hsum, hzero, hloop, htargets, Option.bind_eq_bind, Option.bind_some,
      if_false, Bool.false_eq_true]

/-- A rebalancing that succeeds changes targets only, and takes none away. -/
lemma maybeRebalance?_eq_some (h : v.maybeRebalance? = some w) :
    ∃ targetQty, w = { v with targetQty := targetQty } ∧
      ∀ n, v.targetQty.WrittenTo n → targetQty.WrittenTo n := by
  have hsame : ∃ targetQty, v = { v with targetQty := targetQty } ∧
      ∀ n, v.targetQty.WrittenTo n → targetQty.WrittenTo n := ⟨v.targetQty, rfl, fun _ => id⟩
  obtain ⟨needed, -, hneeded⟩ := Option.bind_eq_some_iff.mp h
  cases needed with
  | false =>
    obtain rfl := Option.some_inj.mp hneeded
    exact hsame
  | true =>
    obtain ⟨sum, -, hrest⟩ := Option.bind_eq_some_iff.mp hneeded
    by_cases hzero : Doubles.le sum (Doubles.lit 0 : F) = true
    · rw [if_pos hzero] at hrest
      obtain rfl := Option.some_inj.mp hrest
      exact hsame
    · rw [if_neg hzero] at hrest
      obtain ⟨⟨targetQty, assigned⟩, hloop, hlast⟩ := Option.bind_eq_some_iff.mp hrest
      obtain ⟨targets, htargets, hw⟩ := Option.bind_eq_some_iff.mp hlast
      obtain rfl := Option.some_inj.mp hw
      refine ⟨targets, rfl, fun n hn => ?_⟩
      have hkeep := CheckedArray.invariant_foldlM
        (I := fun s : CheckedArray ℤ kVwapMaxSlices × ℤ => s.1.WrittenTo n) (fun i s s' hs => by
          obtain ⟨portion, -, hwrite⟩ := Option.bind_eq_some_iff.mp hs
          obtain ⟨next, hnext, hread⟩ := Option.bind_eq_some_iff.mp hwrite
          obtain ⟨target, -, hs'⟩ := Option.bind_eq_some_iff.mp hread
          obtain rfl := Option.some_inj.mp hs'
          exact fun hold => hold.write? hnext) hloop hn
      exact hkeep.write? htargets

/-- A rebalancing succeeds with no more slices than cells, and otherwise when it is not needed. -/
lemma Ready.isSome_maybeRebalance?_iff (h : v.Ready) (hindex : v.sliceIndex < v.slices) :
    v.maybeRebalance?.isSome ↔ v.slices ≤ kVwapMaxSlices ∨ v.needsRebalance? ≠ some true := by
  obtain ⟨needed, hneeded⟩ := h.exists_needsRebalance? hindex
  have hcap := h.index_le
  cases needed with
  | false =>
    have hsame : v.maybeRebalance? = some v := by rw [maybeRebalance?, hneeded]; rfl
    simp [hsame, hneeded]
  | true =>
    have hmore : v.maybeRebalance? = v.redistribute? := by rw [maybeRebalance?, hneeded]; rfl
    rw [hmore, hneeded]
    rcases le_or_gt v.slices kVwapMaxSlices with hslices | hslices
    · obtain ⟨w, hw⟩ := h.exists_redistribute? hindex hslices
      simp [hw, hslices]
    · simp [redistribute?_eq_none (by omega) hslices, not_le.mpr hslices]

/-! ## The calls -/

omit [Doubles F] in
/-- The target of a slice is needed before the last one, and has a cell up to index 127. -/
lemma isSome_nextQty?_iff (hindex : v.sliceIndex < v.slices)
    (hnonneg : 0 ≤ v.sliceIndex) (hwritten : v.targetQty.WrittenTo v.filledSlices) :
    v.nextQty?.isSome ↔ v.sliceIndex < kVwapMaxSlices ∨ v.sliceIndex = v.slices - 1 := by
  unfold nextQty?
  split_ifs with hlast
  · simp [hlast]
  · rw [Option.isSome_map]
    rcases lt_or_ge v.sliceIndex kVwapMaxSlices with hcell | hcell
    · have hfilled : v.sliceIndex < v.filledSlices := by
        unfold filledSlices
        split_ifs <;> omega
      simp [hwritten _ hnonneg hfilled, hcell]
    · simp [CheckedArray.read?_eq_none hcell, hlast, not_lt.mpr hcell]

/-- A call succeeds exactly when it stays inside of the arrays. -/
lemma Ready.isSome_call?_iff (h : v.Ready) (c : Call) : (v.call? c).isSome ↔ v.Guarded c := by
  cases c with
  | start now => exact iff_of_true rfl trivial
  | onFill fillQty => exact iff_of_true rfl trivial
  | tick now stamp =>
    rw [call?, Option.isSome_map, tick?, Guarded]
    by_cases hdone : v.sliceIndex ≥ v.slices
    · rw [if_pos hdone]
      exact iff_of_true rfl fun hindex => absurd hdone (not_le.mpr hindex)
    have hindex := not_le.mp hdone
    by_cases hwait : now < v.thresholdNs
    · rw [if_neg hdone, if_pos hwait]
      exact iff_of_true rfl fun _ hdue => absurd hwait (not_lt.mpr hdue)
    rw [if_neg hdone, if_neg hwait]
    simp only [hindex, not_lt.mp hwait, forall_const]
    have hrebalance := h.isSome_maybeRebalance?_iff hindex
    cases hw : v.maybeRebalance? with
    | none =>
      rw [hw] at hrebalance
      refine iff_of_false (by simp) fun hguard => ?_
      exact absurd (hrebalance.mpr (hguard.imp_right And.left)) (by simp)
    | some w =>
      obtain ⟨targetQty, rfl, hkeep⟩ := maybeRebalance?_eq_some hw
      have hsome : v.slices ≤ kVwapMaxSlices ∨ v.needsRebalance? ≠ some true :=
        hrebalance.mp (by rw [hw]; rfl)
      have hnext := isSome_nextQty?_iff (v := { v with targetQty := targetQty }) hindex
        h.index_nonneg (hkeep _ h.written.2)
      have hsend : ∀ next : Option ℤ,
          (do let qty ← next
              some (true, dispatch { v with targetQty := targetQty } qty stamp)).isSome ↔
            next.isSome := by
        intro next
        cases next <;> simp
      refine (hsend _).trans (hnext.trans ?_)
      dsimp only
      constructor
      · intro hcell
        exact hsome.imp_right fun hnot => ⟨hnot, hcell⟩
      · rintro (hslices | ⟨-, hcell⟩)
        · left
          omega
        · exact hcell

/-- What a slice that is sent leads to. -/
lemma tick?_eq_some {now stamp : ℕ} {due : Bool} (h : v.tick? now stamp = some (due, w)) :
    due = false ∧ w = v ∨ due = true ∧ v.sliceIndex < v.slices ∧ ∃ targetQty qty,
      w = dispatch { v with targetQty := targetQty } qty stamp ∧
      nextQty? { v with targetQty := targetQty } = some qty ∧
      ∀ n, v.targetQty.WrittenTo n → targetQty.WrittenTo n := by
  unfold tick? at h
  split_ifs at h with hdone hwait
  · obtain ⟨rfl, rfl⟩ := Prod.mk.inj (Option.some_inj.mp h)
    exact Or.inl ⟨rfl, rfl⟩
  · obtain ⟨rfl, rfl⟩ := Prod.mk.inj (Option.some_inj.mp h)
    exact Or.inl ⟨rfl, rfl⟩
  · obtain ⟨u, hu, hnext⟩ := Option.bind_eq_some_iff.mp h
    obtain ⟨qty, hqty, hsend⟩ := Option.bind_eq_some_iff.mp hnext
    obtain ⟨rfl, rfl⟩ := Prod.mk.inj (Option.some_inj.mp hsend)
    obtain ⟨targetQty, rfl, hkeep⟩ := maybeRebalance?_eq_some hu
    exact Or.inr ⟨rfl, not_le.mp hdone, targetQty, qty, rfl, hqty, hkeep⟩

omit [Doubles F] in
/-- The settings and arrays are no matter of sending a slice. -/
lemma dispatch_frame (v : Vwap F) (qty : ℤ) (stamp : ℕ) :
    (v.dispatch qty stamp).slices = v.slices ∧
      (v.dispatch qty stamp).sliceIndex = v.sliceIndex + 1 ∧
      (v.dispatch qty stamp).volumeProfile = v.volumeProfile ∧
      (v.dispatch qty stamp).targetQty = v.targetQty := by
  unfold dispatch
  split_ifs <;> exact ⟨rfl, rfl, rfl, rfl⟩

/-- A call that succeeds keeps what holds between the calls. -/
lemma Ready.call? {c : Call} (h : v.Ready) (hw : v.call? c = some w) : w.Ready := by
  cases c with
  | start now =>
    obtain rfl := Option.some_inj.mp hw
    exact ⟨h.slices_pos, le_rfl, Or.inl (Int.natCast_nonneg _), h.written⟩
  | onFill fillQty =>
    obtain rfl := Option.some_inj.mp hw
    exact ⟨h.slices_pos, h.index_nonneg, h.index_le, h.written⟩
  | tick now stamp =>
    obtain ⟨⟨due, u⟩, hu, rfl⟩ := Option.map_eq_some_iff.mp hw
    rcases tick?_eq_some hu with ⟨-, rfl⟩ | ⟨-, hindex, targetQty, qty, rfl, hqty, hkeep⟩
    · exact h
    · obtain ⟨hslices, hnext, hprofile, htargets⟩ :=
        dispatch_frame { v with targetQty := targetQty } qty stamp
      have hcell := (isSome_nextQty?_iff (v := { v with targetQty := targetQty }) hindex
        h.index_nonneg (hkeep _ h.written.2)).mp (by rw [hqty]; rfl)
      have hnonneg := h.index_nonneg
      dsimp only at hslices hnext hprofile htargets hcell
      refine ⟨?_, ?_, ?_, ?_⟩
      · rw [hslices]
        exact h.slices_pos
      · rw [hnext]
        omega
      · rw [hnext, hslices]
        omega
      · rw [WrittenTo, filledSlices, hslices, hprofile, htargets]
        exact ⟨h.written.1, hkeep _ h.written.2⟩

/-- The constructor succeeds. -/
lemma exists_init? (instrumentId : ℕ) (side : Side) (totalQty : ℤ) (profile : Option (ℤ → F))
    (slices : ℤ) (durationNs : ℕ) :
    ∃ v, init? instrumentId side totalQty profile slices durationNs = some v ∧ v.Ready ∧
      (blank instrumentId side totalQty slices durationNs).SameBut v := by
  have hpos : 0 < (blank instrumentId side totalQty slices durationNs : Vwap F).slices := by
    change 0 < if slices > 0 then slices else 1
    split_ifs with h
    · exact h
    · exact Int.one_pos
  obtain ⟨v, hv, hsame, hwritten⟩ := exists_fillIn? profile hpos
  refine ⟨v, hv, ?_, hsame⟩
  rw [SameBut] at hsame
  rw [hsame] at hwritten ⊢
  exact ⟨hpos, le_rfl, Or.inl (Int.natCast_nonneg _), hwritten⟩

/-- **The accesses of a run.**  For every number of slices the constructor stays inside of the
arrays.  Then a run of calls reads and writes inside of the arrays, and reads only what was written,
exactly when each of its calls is guarded. -/
theorem isSome_run?_iff (instrumentId : ℕ) (side : Side) (totalQty : ℤ) (profile : Option (ℤ → F))
    (slices : ℤ) (durationNs : ℕ) :
    ∃ v, init? instrumentId side totalQty profile slices durationNs = some v ∧
      ∀ calls, (v.run? calls).isSome ↔
        Transition.Admissible (Transition.total call?) Guarded v calls := by
  obtain ⟨v, hv, hready, -⟩ :=
    exists_init? instrumentId side totalQty profile slices durationNs
  refine ⟨v, hv, fun calls => ?_⟩
  rw [run?, Transition.isSome_foldlM_iff]
  refine Transition.admissible_congr_of_invariant (P := Ready)
    (fun u c hu => hu.isSome_call?_iff c) (fun u c hsome hu => ?_) hready
  obtain ⟨w, hw⟩ := Option.isSome_iff_exists.mp hsome
  rw [Transition.total, hw, Option.getD_some]
  exact hu.call? hw

/-- A call at the end of time, which is never too early. -/
def lastCall : Call :=
  .tick (2 ^ 64 - 1) (2 ^ 64 - 1)

/-- Without fills, each slice that has a cell is sent. -/
lemma Ready.exists_lastCall (h : v.Ready) (hfilled : v.totalFilled = 0)
    (hindex : v.sliceIndex < v.slices) (hcell : v.sliceIndex < kVwapMaxSlices) :
    ∃ w, v.call? lastCall = some w ∧ w.Ready ∧ w.totalFilled = 0 ∧
      w.sliceIndex = v.sliceIndex + 1 ∧ w.slices = v.slices := by
  have hsame : v.needsRebalance? = some false := by simp [needsRebalance?, hfilled]
  have hleave : v.maybeRebalance? = some v := by rw [maybeRebalance?, hsame]; rfl
  have hsome : (v.call? lastCall).isSome := by
    refine (h.isSome_call?_iff _).mpr fun _ _ => Or.inr ⟨?_, Or.inl hcell⟩
    rw [hsame]
    simp
  obtain ⟨w, hw⟩ := Option.isSome_iff_exists.mp hsome
  obtain ⟨⟨due, u⟩, hu, rfl⟩ := Option.map_eq_some_iff.mp hw
  refine ⟨u, hw, h.call? hw, ?_⟩
  have hdue : v.thresholdNs ≤ 2 ^ 64 - 1 := Nat.le_pred_of_lt (Nat.mod_lt _ (by decide))
  rw [tick?, if_neg (not_le.mpr hindex), if_neg (not_lt.mpr hdue), hleave] at hu
  obtain ⟨t, ht, hnext⟩ := Option.bind_eq_some_iff.mp hu
  obtain rfl := Option.some_inj.mp ht
  obtain ⟨qty, -, hsend⟩ := Option.bind_eq_some_iff.mp hnext
  obtain ⟨-, rfl⟩ := Prod.mk.inj (Option.some_inj.mp hsend)
  unfold dispatch
  split_ifs <;> exact ⟨hfilled, rfl, rfl⟩

/-- With more than 129 slices, an access of the slice of index 128 fails. -/
theorem run?_eq_none (h : v.Ready) (hstart : v.sliceIndex = 0) (hfilled : v.totalFilled = 0)
    (hslices : 129 < v.slices) : v.run? (List.replicate 129 lastCall) = none := by
  have hreach : ∀ n : ℕ, n ≤ 128 → ∃ w, v.run? (List.replicate n lastCall) = some w ∧ w.Ready ∧
      w.totalFilled = 0 ∧ w.sliceIndex = n ∧ w.slices = v.slices := by
    intro n
    induction n with
    | zero => exact fun _ => ⟨v, rfl, h, hfilled, hstart, rfl⟩
    | succ n ih =>
      intro hn
      obtain ⟨w, hw, hready, hzero, hindex, hsame⟩ := ih (by omega)
      have hcap : (kVwapMaxSlices : ℤ) = 128 := rfl
      obtain ⟨u, hu, hready', hzero', hindex', hsame'⟩ :=
        hready.exists_lastCall hzero (by omega) (by omega)
      refine ⟨u, ?_, hready', hzero', by omega, hsame'.trans hsame⟩
      rw [run?] at hw ⊢
      rw [List.replicate_succ', List.foldlM_append, hw]
      simpa using hu
  obtain ⟨w, hw, hready, hzero, hindex, hsame⟩ := hreach 128 le_rfl
  have hfail : w.call? lastCall = none := by
    rw [← Option.not_isSome_iff_eq_none, hready.isSome_call?_iff]
    intro hguard
    have hcap : (kVwapMaxSlices : ℤ) = 128 := rfl
    have hdue : w.thresholdNs ≤ 2 ^ 64 - 1 := Nat.le_pred_of_lt (Nat.mod_lt _ (by decide))
    rcases hguard (by omega) hdue with hfew | ⟨-, hcell⟩ <;> omega
  rw [run?] at hw ⊢
  rw [show (129 : ℕ) = 128 + 1 from rfl, List.replicate_succ', List.foldlM_append, hw]
  simp [hfail]

/-- With 200 slices, the slice of index 128 reads a target outside of the array. -/
theorem not_isSome_run?_200 :
    ¬∀ (F : Type) [Doubles F] (instrumentId : ℕ) (side : Side) (totalQty : ℤ)
      (profile : Option (ℤ → F)) (slices : ℤ) (durationNs : ℕ) (calls : List Call),
      ∃ v, init? instrumentId side totalQty profile slices durationNs = some v ∧
        (v.run? calls).isSome := by
  intro h
  obtain ⟨v, hv, hready, hsame⟩ := exists_init? 1 .buy 1000 (none : Option (ℤ → ℚ)) 200 400
  rw [SameBut] at hsame
  obtain ⟨w, hw, hsome⟩ := h ℚ 1 .buy 1000 none 200 400 (List.replicate 129 lastCall)
  obtain rfl := Option.some_inj.mp (hv.symm.trans hw)
  have hnone := run?_eq_none hready (by rw [hsame]; rfl) (by rw [hsame]; rfl)
    (by rw [hsame]; exact (by decide : (129 : ℤ) < 200))
  rw [hnone] at hsome
  exact absurd hsome (by decide)

end Vwap

end QuantTrade
