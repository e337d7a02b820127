import Mathlib.Algebra.Ring.Int.Defs
import QuantTrade.Library.Interleaving
import QuantTrade.Risk.PositionLimits

/-!
# Reservations that race

`PositionLimits::check_and_reserve` and `on_cancel` of `src/risk/position_limits.cpp`, one atomic
operation at a time, in any number of threads.  `check_and_reserve` tests the limit against a value
of the slot that it loaded before, but it reserves with a compare-exchange that only succeeds while
the slot still has this value.  So every call takes effect at one of its steps, as if it were made
at once there (`takes_step`), the slots account for the reservations that succeeded and for the
cancels (`slots_run`), and each call that returns has been accounted for with its own arguments
(`answers_step`).
-/

namespace QuantTrade

namespace PositionLimits

namespace Race

/-- The arguments of a call of `check_and_reserve`. -/
structure Request where
  id : ℕ
  side : Side
  qty : ℤ
  price : ℤ
  deriving DecidableEq, Repr

/-- The calls a thread can make. -/
inductive Call where
  | checkAndReserve (r : Request)
  | onCancel (id : ℕ) (side : Side) (qty : ℤ)
  deriving DecidableEq, Repr

/-- What the code does not determine of a step: the call that a thread begins when it is not in
one, and whether a weak compare-exchange fails for no reason. -/
structure Outcome where
  call : Call
  spurious : Bool

/-- Where a thread is, with the local variables it has there: the next atomic operation is the one
named. -/
inductive Pc where
  /-- Not in a call; the next step begins one. -/
  | idle
  | loadSlot (r : Request)
  | exchange (r : Request) (oldQty newQty : ℤ)
  | fetchAdd (id : ℕ) (side : Side) (qty : ℤ)
  deriving DecidableEq

/-- What a step completes: a call of `check_and_reserve` that returns `true` or `false`, or the
`fetch_add` of a cancel. -/
inductive Event where
  | reserved (r : Request)
  | rejected (r : Request)
  | cancelled (id : ℕ) (side : Side) (qty : ℤ)
  deriving DecidableEq, Repr

/-- The body of the loop of `check_and_reserve`: the limit is tested against the value of the slot
that was read last. -/
def tryReserve (pl : PositionLimits) (r : Request) (oldQty : ℤ) : Pc × Option Event :=
  let newQty := oldQty + r.side.signed r.qty
  if newQty > pl.maxNetQty ∨ newQty < -pl.maxNetQty then (.idle, some (.rejected r))
  else (.exchange r oldQty newQty, none)

/-- One atomic operation, with the code up to the next one: the shared state after it, where the
thread is then, and what it completes. -/
def operate (pl : PositionLimits) (o : Outcome) : Pc → PositionLimits × Pc × Option Event
  | .idle =>
    match o.call with
    | .checkAndReserve r =>
      if r.id ≥ maxInstruments then (pl, .idle, some (.rejected r))
      else if r.price > 0 ∧ r.qty > 0 ∧ r.price * r.qty > pl.maxNotional then
        (pl, .idle, some (.rejected r))
      else (pl, .loadSlot r, none)
    | .onCancel id side qty =>
      if id ≥ maxInstruments then (pl, .idle, none) else (pl, .fetchAdd id side qty, none)
  | .loadSlot r => (pl, tryReserve pl r (pl.slots r.id))
  | .exchange r oldQty newQty =>
    if pl.slots r.id = oldQty ∧ o.spurious = false then
      ({ pl with slots := Function.update pl.slots r.id newQty }, .idle, some (.reserved r))
    else
      -- a compare-exchange that fails reads the slot
      (pl, tryReserve pl r (pl.slots r.id))
  | .fetchAdd id side qty =>
    ({ pl with slots := Function.update pl.slots id (pl.slots id - side.signed qty) }, .idle,
      some (.cancelled id side qty))

variable {ι : Type}

/-- One step of a thread. -/
def act (_ : ι) (pl : PositionLimits) (pc : Pc) (o : Outcome) : PositionLimits × Pc :=
  ((operate pl o pc).1, (operate pl o pc).2.1)

/-- New limits, and no thread in a call. -/
def start (maxNetQty maxNotional : ℤ) : Interleaving.Config PositionLimits ι Pc where
  shared := init maxNetQty maxNotional
  locals := fun _ => .idle

/-- What a step completes. -/
def event (c : Interleaving.Config PositionLimits ι Pc) (p : ι × Outcome) : Option Event :=
  (operate c.shared p.2 (c.locals p.1)).2.2

/-- The signed quantity that a step reserves on the instrument. -/
def reservedOn (id : ℕ) (c : Interleaving.Config PositionLimits ι Pc) (p : ι × Outcome) : ℤ :=
  match event c p with
  | some (.reserved r) => if r.id = id then r.side.signed r.qty else 0
  | _ => 0

/-- The signed quantity that a step gives back on the instrument. -/
def cancelledOn (id : ℕ) (c : Interleaving.Config PositionLimits ι Pc) (p : ι × Outcome) : ℤ :=
  match event c p with
  | some (.cancelled id' side qty) => if id' = id then side.signed qty else 0
  | _ => 0

/-! ## Every call takes effect at once -/

/-- What a thread knows: the tests it has behind it, and what it is about to store. -/
def Knows (_ : ι) (pl : PositionLimits) : Pc → Prop
  | .idle => True
  | .loadSlot r =>
    r.id < maxInstruments ∧ ¬(0 < r.price ∧ 0 < r.qty ∧ pl.maxNotional < r.price * r.qty)
  | .exchange r oldQty newQty =>
    r.id < maxInstruments ∧ ¬(0 < r.price ∧ 0 < r.qty ∧ pl.maxNotional < r.price * r.qty) ∧
      newQty = oldQty + r.side.signed r.qty ∧ -pl.maxNetQty ≤ newQty ∧ newQty ≤ pl.maxNetQty
  | .fetchAdd id _ _ => id < maxInstruments

/-- How a step changes the limits: nothing changes unless it completes a call, and a call that is
completed is one that is made at once. -/
def Takes (pl pl' : PositionLimits) : Option Event → Prop
  | none => pl' = pl
  | some (.reserved r) => pl.checkAndReserve r.id r.side r.qty r.price = (pl', true)
  | some (.rejected r) => pl.checkAndReserve r.id r.side r.qty r.price = (pl', false)
  | some (.cancelled id side qty) => id < maxInstruments ∧ pl' = pl.onCancel id side qty

/-- A rejection by the limit is one of the slot as it was read. -/
lemma not_admits_of_limit {pl : PositionLimits} {r : Request} (hid : r.id < maxInstruments)
    (hlimit : pl.slots r.id + r.side.signed r.qty > pl.maxNetQty ∨
      pl.slots r.id + r.side.signed r.qty < -pl.maxNetQty) :
    ¬pl.Admits r.id r.side r.qty r.price := by
  rintro ⟨-, -, hlow, hhigh⟩
  rw [getNetQty, if_neg (by omega)] at hlow hhigh
  omega

/-- The loop rejects what the limits do not admit, or goes on to its compare-exchange. -/
lemma takes_tryReserve {pl : PositionLimits} {r : Request} (hid : r.id < maxInstruments) :
    Takes pl pl (tryReserve pl r (pl.slots r.id)).2 := by
  unfold tryReserve
  dsimp only
  split_ifs with hlimit
  · exact checkAndReserve_of_not_admits (not_admits_of_limit hid hlimit)
  · rfl

/-- What a thread knows when it goes on to the compare-exchange. -/
lemma knows_tryReserve {pl : PositionLimits} {t : ι} {r : Request}
    (h : Knows t pl (.loadSlot r)) (oldQty : ℤ) : Knows t pl (tryReserve pl r oldQty).1 := by
  unfold tryReserve
  dsimp only
  split_ifs with hlimit
  · trivial
  · exact ⟨h.1, h.2, rfl, by omega, by omega⟩

/-- Every operation changes the limits as its event says. -/
lemma takes_operate {pl : PositionLimits} {t : ι} {pc : Pc} (h : Knows t pl pc) (o : Outcome) :
    Takes pl (operate pl o pc).1 (operate pl o pc).2.2 := by
  cases pc with
  | idle =>
    simp only [operate]
    cases o.call with
    | checkAndReserve r =>
      dsimp only
      split_ifs with hid hnotional
      · exact checkAndReserve_of_not_admits fun hadmits => absurd hadmits.1 (by omega)
      · exact checkAndReserve_of_not_admits fun hadmits => hadmits.2.1 hnotional
      · rfl
    | onCancel id side qty =>
      dsimp only
      split_ifs <;> rfl
  | loadSlot r => exact takes_tryReserve h.1
  | exchange r oldQty newQty =>
    obtain ⟨hid, hnotional, rfl, hlow, hhigh⟩ := h
    simp only [operate]
    split_ifs with hcas
    · -- the slot still has the value that was tested
      obtain ⟨rfl, -⟩ := hcas
      have hslot : pl.getNetQty r.id = pl.slots r.id := if_neg (by omega)
      exact checkAndReserve_of_admits ⟨hid, hnotional, by omega, by omega⟩
    · exact takes_tryReserve hid
  | fetchAdd id side qty =>
    have hid : id < maxInstruments := h
    exact ⟨hid, (if_neg (by omega)).symm⟩

/-- The limits are those of the construction. -/
structure Limits (maxNetQty maxNotional : ℤ) (pl : PositionLimits) : Prop where
  maxNetQty_eq : pl.maxNetQty = maxNetQty
  maxNotional_eq : pl.maxNotional = maxNotional

/-- The limits themselves are never changed. -/
lemma limits_operate (pl : PositionLimits) (o : Outcome) (pc : Pc) :
    Limits pl.maxNetQty pl.maxNotional (operate pl o pc).1 := by
  cases pc with
  | idle =>
    simp only [operate]
    cases o.call <;> dsimp only <;> split_ifs <;> exact ⟨rfl, rfl⟩
  | exchange r oldQty newQty =>
    simp only [operate]
    split_ifs <;> exact ⟨rfl, rfl⟩
  | _ => exact ⟨rfl, rfl⟩

/-- What a thread knows only depends on the two limits. -/
lemma Knows.congr {t : ι} {pl pl' : PositionLimits} {pc : Pc} (h : Knows t pl pc)
    (hlimits : Limits pl.maxNetQty pl.maxNotional pl') : Knows t pl' pc := by
  cases pc with
  | idle => trivial
  | loadSlot r => simpa only [Knows, hlimits.maxNotional_eq] using h
  | exchange r oldQty newQty =>
    simpa only [Knows, hlimits.maxNetQty_eq, hlimits.maxNotional_eq] using h
  | fetchAdd id side qty => exact h

/-- An operation gives a thread what it knows next. -/
lemma knows_operate {pl : PositionLimits} {t : ι} {pc : Pc} (h : Knows t pl pc) (o : Outcome) :
    Knows t pl (operate pl o pc).2.1 := by
  cases pc with
  | idle =>
    simp only [operate]
    cases o.call with
    | checkAndReserve r =>
      dsimp only
      split_ifs with hid hnotional
      · trivial
      · trivial
      · exact ⟨not_le.mp hid, hnotional⟩
    | onCancel id side qty =>
      dsimp only
      split_ifs with hid
      · trivial
      · exact not_le.mp hid
  | loadSlot r => exact knows_tryReserve h _
  | exchange r oldQty newQty =>
    simp only [operate]
    split_ifs
    · trivial
    · exact knows_tryReserve ⟨h.1, h.2.1⟩ _
  | fetchAdd id side qty => trivial

/-- The threads do not interfere with what the others know. -/
lemma inductive_knows (maxNetQty maxNotional : ℤ) (C : ι → PositionLimits → Pc → Outcome → Prop) :
    Interleaving.Inductive act C (Limits maxNetQty maxNotional) Knows := by
  constructor
  · intro t pl pc o _ hpl _
    exact ⟨(limits_operate pl o pc).maxNetQty_eq.trans hpl.maxNetQty_eq,
      (limits_operate pl o pc).maxNotional_eq.trans hpl.maxNotional_eq⟩
  · intro t pl pc o _ _ hpc
    exact (knows_operate hpc o).congr (limits_operate pl o pc)
  · intro t pl pc o _ _ _ t' pc' _ hpc'
    exact hpc'.congr (limits_operate pl o pc)

/-- A call that succeeds moves its slot by the signed quantity to a value inside the limits. -/
lemma eq_of_checkAndReserve {pl pl' : PositionLimits} {r : Request}
    (h : pl.checkAndReserve r.id r.side r.qty r.price = (pl', true)) :
    pl' = { pl with
        slots := Function.update pl.slots r.id (pl.slots r.id + r.side.signed r.qty) } ∧
      pl.Admits r.id r.side r.qty r.price := by
  by_cases hadmits : pl.Admits r.id r.side r.qty r.price
  · rw [checkAndReserve_of_admits hadmits, Prod.mk.injEq] at h
    exact ⟨h.1.symm, hadmits⟩
  · rw [checkAndReserve_of_not_admits hadmits, Prod.mk.injEq] at h
    exact absurd h.2 Bool.false_ne_true

/-- A call that is rejected leaves the slots as they are. -/
lemma eq_of_checkAndReserve_false {pl pl' : PositionLimits} {r : Request}
    (h : pl.checkAndReserve r.id r.side r.qty r.price = (pl', false)) : pl' = pl := by
  by_cases hadmits : pl.Admits r.id r.side r.qty r.price
  · rw [checkAndReserve_of_admits hadmits, Prod.mk.injEq] at h
    exact absurd h.2.symm Bool.false_ne_true
  · rw [checkAndReserve_of_not_admits hadmits, Prod.mk.injEq] at h
    exact h.1.symm

/-! ## What a step completes -/

/-- What the step with which a call returns completes: `check_and_reserve` says whether it reserved,
and `on_cancel` makes its `fetch_add`, unless there is no such instrument. -/
def Answers : Call → Option Event → Prop
  | .checkAndReserve r, e => e = some (.reserved r) ∨ e = some (.rejected r)
  | .onCancel id side qty, e =>
    e = if id < maxInstruments then some (.cancelled id side qty) else none

/-- The call whose arguments a thread has in its local variables. -/
def Pc.call? : Pc → Option Call
  | .idle => none
  | .loadSlot r | .exchange r _ _ => some (.checkAndReserve r)
  | .fetchAdd id side qty => some (.onCancel id side qty)

/-- A step that ends a call answers it; another one completes nothing and keeps the arguments. -/
structure Continues (call : Call) (pc : Pc) (e : Option Event) : Prop where
  answers : pc = .idle → Answers call e
  pending : pc ≠ .idle → e = none ∧ pc.call? = some call

lemma continues_tryReserve (pl : PositionLimits) (r : Request) (oldQty : ℤ) :
    Continues (.checkAndReserve r) (tryReserve pl r oldQty).1 (tryReserve pl r oldQty).2 := by
  unfold tryReserve
  dsimp only
  split_ifs
  · exact ⟨fun _ => Or.inr rfl, fun h => absurd rfl h⟩
  · exact ⟨nofun, fun _ => ⟨rfl, rfl⟩⟩

/-- Every operation goes on with the call that its thread is in. -/
lemma continues_operate {pl : PositionLimits} {t : ι} {pc : Pc} (h : Knows t pl pc) (o : Outcome) :
    Continues (pc.call?.getD o.call) (operate pl o pc).2.1 (operate pl o pc).2.2 := by
  cases pc with
  | idle =>
    simp only [operate, Pc.call?, Option.getD_none]
    cases o.call with
    | checkAndReserve r =>
      dsimp only
      split_ifs
      · exact ⟨fun _ => Or.inr rfl, fun h => absurd rfl h⟩
      · exact ⟨fun _ => Or.inr rfl, fun h => absurd rfl h⟩
      · exact ⟨nofun, fun _ => ⟨rfl, rfl⟩⟩
    | onCancel id side qty =>
      dsimp only
      split_ifs with hid
      · exact ⟨fun _ => (if_neg (not_lt.mpr hid)).symm, fun h => absurd rfl h⟩
      · exact ⟨nofun, fun _ => ⟨rfl, rfl⟩⟩
  | loadSlot r => exact continues_tryReserve pl r _
  | exchange r oldQty newQty =>
    simp only [operate, Pc.call?, Option.getD_some]
    split_ifs
    · exact ⟨fun _ => Or.inl rfl, fun h => absurd rfl h⟩
    · exact continues_tryReserve pl r _
  | fetchAdd id side qty =>
    have hid : id < maxInstruments := h
    exact ⟨fun _ => (if_pos hid).symm, fun h => absurd rfl h⟩

variable [DecidableEq ι]

/-- Every interleaving keeps what the threads know. -/
lemma holds_run (maxNetQty maxNotional : ℤ) (steps : List (ι × Outcome)) :
    Interleaving.Holds (Limits maxNetQty maxNotional) Knows
      (Transition.run (Interleaving.step act) (start maxNetQty maxNotional) steps) := by
  apply Transition.invariant_run_of_step
  · intro c p hc
    exact hc.step (inductive_knows maxNetQty maxNotional fun _ _ _ _ => True) trivial
  · exact ⟨⟨rfl, rfl⟩, fun _ => trivial⟩

/-- **Atomicity.**  In every interleaving each step changes nothing or has the effect and the result
of a whole call, made at once in the state in which the step is taken. -/
theorem takes_step (maxNetQty maxNotional : ℤ) (steps : List (ι × Outcome)) (p : ι × Outcome) :
    let c := Transition.run (Interleaving.step act) (start maxNetQty maxNotional) steps
    Takes c.shared (Interleaving.step act c p).shared (event c p) :=
  takes_operate ((holds_run maxNetQty maxNotional steps).locals p.1) p.2

/-- A step accounts for what it does to a slot. -/
lemma slots_step {c : Interleaving.Config PositionLimits ι Pc} {p : ι × Outcome}
    (h : Takes c.shared (Interleaving.step act c p).shared (event c p)) (id : ℕ) :
    (Interleaving.step act c p).shared.slots id =
      c.shared.slots id + (reservedOn id c p - cancelledOn id c p) := by
  unfold reservedOn cancelledOn
  generalize (Interleaving.step act c p).shared = pl' at h ⊢
  cases hevent : event c p with
  | none =>
    rw [hevent] at h
    simp [show pl' = c.shared from h]
  | some e =>
    rw [hevent] at h
    cases e with
    | reserved r =>
      obtain ⟨rfl, -⟩ := eq_of_checkAndReserve h
      by_cases hid : r.id = id
      · subst hid
        simp
      · simp [hid, Function.update_of_ne (Ne.symm hid)]
    | rejected r => simp [eq_of_checkAndReserve_false h]
    | cancelled id' side qty =>
      obtain ⟨hid', rfl⟩ := h
      simp only [onCancel, if_neg (not_le.mpr hid')]
      by_cases hid : id' = id
      · subst hid
        simp [sub_eq_add_neg]
      · simp [hid, Function.update_of_ne (Ne.symm hid)]

/-- **Accounts.**  A slot is the sum of what was reserved on it less what was cancelled. -/
theorem slots_run (maxNetQty maxNotional : ℤ) (steps : List (ι × Outcome)) (id : ℕ) :
    (Transition.run (Interleaving.step act) (start maxNetQty maxNotional) steps).shared.slots id =
      Transition.sumAlong (Interleaving.step act) (reservedOn id) (start maxNetQty maxNotional)
          steps -
        Transition.sumAlong (Interleaving.step act) (cancelledOn id) (start maxNetQty maxNotional)
          steps := by
  have hinductive := inductive_knows (ι := ι) maxNetQty maxNotional fun _ _ _ _ => True
  have haccount := Transition.measure_run (C := fun _ _ => True)
    (P := Interleaving.Holds (Limits maxNetQty maxNotional) Knows)
    (g := fun c p => reservedOn id c p - cancelledOn id c p) (m := fun c => c.shared.slots id)
    (fun c p _ hc => hc.step hinductive trivial)
    (fun c p _ hc => slots_step (takes_operate (hc.locals p.1) p.2) id)
    (Transition.admissible_true (start maxNetQty maxNotional) steps)
    ⟨⟨rfl, rfl⟩, fun _ => trivial⟩
  rw [haccount, Transition.sumAlong_sub]
  exact zero_add _

/-! ## The calls that are made -/

/-- The threads, and the call that each of them began last. -/
structure Watched (ι : Type) where
  config : Interleaving.Config PositionLimits ι Pc
  began : ι → Option Call

/-- One step; a thread that is not in a call begins the one that comes with its step. -/
def Watched.step (w : Watched ι) (p : ι × Outcome) : Watched ι where
  config := Interleaving.step act w.config p
  began :=
    if w.config.locals p.1 = .idle then Function.update w.began p.1 (some p.2.call) else w.began

/-- The threads after these steps, with the calls they began. -/
def watched (maxNetQty maxNotional : ℤ) (steps : List (ι × Outcome)) : Watched ι :=
  Transition.run Watched.step ⟨start maxNetQty maxNotional, fun _ => none⟩ steps

lemma watched_concat (maxNetQty maxNotional : ℤ) (steps : List (ι × Outcome)) (p : ι × Outcome) :
    watched maxNetQty maxNotional (steps ++ [p]) = (watched maxNetQty maxNotional steps).step p :=
  Transition.run_concat ..

/-- The calls are watched without a change to the threads. -/
lemma config_watched (maxNetQty maxNotional : ℤ) (steps : List (ι × Outcome)) :
    (watched maxNetQty maxNotional steps).config =
      Transition.run (Interleaving.step act) (start maxNetQty maxNotional) steps := by
  have hproj (w : Watched ι) (p : ι × Outcome) :
      (w.step p).config = Interleaving.step act w.config p := rfl
  exact Transition.proj_run hproj _ steps

/-- The arguments that a thread has are those of the call it began. -/
def Watched.Keeps (w : Watched ι) : Prop :=
  ∀ t call, (w.config.locals t).call? = some call → w.began t = some call

/-- The call that a thread is in with its step is the one it began last. -/
lemma Watched.Keeps.began_step {w : Watched ι} (h : w.Keeps) (p : ι × Outcome) :
    (w.step p).began p.1 = some ((w.config.locals p.1).call?.getD p.2.call) := by
  obtain ⟨t, o⟩ := p
  cases hpc : w.config.locals t with
  | idle => simp [Watched.step, hpc, Pc.call?]
  | _ =>
    have hbegan := h t _ (by rw [hpc, Pc.call?])
    simp [Watched.step, hpc, Pc.call?, hbegan]

/-- A step keeps the arguments of all threads. -/
lemma Watched.Keeps.step {w : Watched ι} (h : w.Keeps) {p : ι × Outcome}
    (hcontinues : Continues ((w.config.locals p.1).call?.getD p.2.call)
      ((w.step p).config.locals p.1) (event w.config p)) : (w.step p).Keeps := by
  intro t call hcall
  by_cases ht : t = p.1
  · subst ht
    rw [h.began_step]
    have hpc : (w.step p).config.locals p.1 ≠ .idle := by
      intro hidle
      rw [hidle] at hcall
      cases hcall
    rw [← hcall, (hcontinues.pending hpc).2]
  · have hlocals : (w.step p).config.locals t = w.config.locals t :=
      Interleaving.locals_step_of_ne act w.config ht p.2
    have hbegan : (w.step p).began t = w.began t := by
      unfold Watched.step
      dsimp only
      split_ifs
      · exact Function.update_of_ne ht _ _
      · rfl
    rw [hbegan]
    rw [hlocals] at hcall
    exact h t call hcall

/-- What a step does with the call that its thread is in. -/
lemma continues_step {w : Watched ι} {maxNetQty maxNotional : ℤ}
    (h : Interleaving.Holds (Limits maxNetQty maxNotional) Knows w.config) (p : ι × Outcome) :
    Continues ((w.config.locals p.1).call?.getD p.2.call) ((w.step p).config.locals p.1)
      (event w.config p) := by
  have hlocals : (w.step p).config.locals p.1 =
      (operate w.config.shared p.2 (w.config.locals p.1)).2.1 :=
    Interleaving.locals_step_self act w.config p.1 p.2
  rw [hlocals]
  exact continues_operate (h.locals p.1) p.2

lemma keeps_watched (maxNetQty maxNotional : ℤ) (steps : List (ι × Outcome)) :
    (watched maxNetQty maxNotional steps).Keeps := by
  have hinductive := inductive_knows (ι := ι) maxNetQty maxNotional fun _ _ _ _ => True
  have hrun : Interleaving.Holds (Limits maxNetQty maxNotional) Knows
      (watched maxNetQty maxNotional steps).config ∧
      (watched maxNetQty maxNotional steps).Keeps := by
    refine Transition.invariant_run_of_step (P := fun w : Watched ι =>
      Interleaving.Holds (Limits maxNetQty maxNotional) Knows w.config ∧ w.Keeps) ?_ ?_ steps
    · rintro w p ⟨hholds, hkeeps⟩
      exact ⟨hholds.step hinductive trivial, hkeeps.step (continues_step hholds p)⟩
    · exact ⟨⟨⟨rfl, rfl⟩, fun _ => trivial⟩, fun _ _ hcall => by cases hcall⟩
  exact hrun.2

/-- **Answers.**  A step that ends a call completes it with the arguments of that call; a step that
ends none completes nothing. -/
theorem answers_step (maxNetQty maxNotional : ℤ) (steps : List (ι × Outcome)) (p : ι × Outcome) :
    let w := watched maxNetQty maxNotional steps
    ∃ call, (w.step p).began p.1 = some call ∧
      ((w.step p).config.locals p.1 = .idle → Answers call (event w.config p)) ∧
      ((w.step p).config.locals p.1 ≠ .idle → event w.config p = none) := by
  intro w
  have hcontinues : Continues ((w.config.locals p.1).call?.getD p.2.call)
      ((w.step p).config.locals p.1) (event w.config p) := by
    have hholds := holds_run maxNetQty maxNotional steps
    rw [← config_watched] at hholds
    exact continues_step hholds p
  exact ⟨_, (keeps_watched maxNetQty maxNotional steps).began_step p, hcontinues.answers,
    fun hpc => (hcontinues.pending hpc).1⟩

/-! ## Linearizability -/

/-- The thread `t` begins a call with the first of the steps, and the last of them returns `false`
from it; the other threads take steps in between. -/
structure RejectedCall (t : ι) (c : Interleaving.Config PositionLimits ι Pc)
    (steps : List (ι × Outcome)) : Prop where
  begins : c.locals t = .idle
  returns : ∃ front o r, steps = front ++ [(t, o)] ∧
    event (Transition.run (Interleaving.step act) c front) (t, o) = some (.rejected r)
  /-- Nothing is completed by the steps of the thread before the last one. -/
  pending : ∀ front o rest, steps = front ++ (t, o) :: rest → rest ≠ [] →
    event (Transition.run (Interleaving.step act) c front) (t, o) = none

/-- **Reservations are linearizable.**  In every interleaving of any number of threads: a slot is
the sum of what was reserved on it less what was cancelled; a step with which `check_and_reserve`
succeeds moves the slot from the value it has to one inside the limits; no step of a thread in a
call that is rejected changes a slot; and a step that ends a call, and no other one, completes what
this call was made for, with the arguments that it was made with. -/
theorem reservations_linearizable (maxNetQty maxNotional : ℤ) (steps : List (ι × Outcome)) :
    let c := Transition.run (Interleaving.step act) (start maxNetQty maxNotional)
    (∀ id, (c steps).shared.slots id =
      Transition.sumAlong (Interleaving.step act) (reservedOn id) (start maxNetQty maxNotional)
          steps -
        Transition.sumAlong (Interleaving.step act) (cancelledOn id) (start maxNetQty maxNotional)
          steps) ∧
    (∀ front p r, front ++ [p] <+: steps → event (c front) p = some (.reserved r) →
      (c (front ++ [p])).shared.slots =
          Function.update (c front).shared.slots r.id
            ((c front).shared.slots r.id + r.side.signed r.qty) ∧
        -maxNetQty ≤ (c (front ++ [p])).shared.slots r.id ∧
        (c (front ++ [p])).shared.slots r.id ≤ maxNetQty) ∧
    (∀ t front call, front ++ call <+: steps → RejectedCall t (c front) call →
      ∀ before p after, call = before ++ p :: after → p.1 = t →
        (c (front ++ before ++ [p])).shared.slots = (c (front ++ before)).shared.slots) ∧
    (∀ front p, front ++ [p] <+: steps →
      ∃ call, (watched maxNetQty maxNotional (front ++ [p])).began p.1 = some call ∧
        ((c (front ++ [p])).locals p.1 = .idle → Answers call (event (c front) p)) ∧
        ((c (front ++ [p])).locals p.1 ≠ .idle → event (c front) p = none)) := by
  intro c
  refine ⟨slots_run maxNetQty maxNotional steps, ?_, ?_, ?_⟩
  · intro front p r _ hevent
    have htakes := takes_step maxNetQty maxNotional front p
    have hlimits := (holds_run maxNetQty maxNotional front).shared.maxNetQty_eq
    dsimp only at htakes
    rw [hevent] at htakes
    obtain ⟨hafter, hid, -, hlow, hhigh⟩ := eq_of_checkAndReserve htakes
    rw [getNetQty, if_neg (by omega), hlimits] at hlow hhigh
    simp only [c, Transition.run_concat, hafter, Function.update_self]
    exact ⟨trivial, hlow, hhigh⟩
  · intro t front call _ hrejected before p after hcall hp
    obtain ⟨t', o⟩ := p
    obtain rfl : t' = t := hp
    have htakes := takes_step maxNetQty maxNotional (front ++ before) (t', o)
    have hevent : event (c (front ++ before)) (t', o) = none ∨
        ∃ r, event (c (front ++ before)) (t', o) = some (.rejected r) := by
      simp only [c, Transition.run_append]
      by_cases hlast : after = []
      · obtain ⟨front', o', r, hsteps, hreturns⟩ := hrejected.returns
        rw [hcall, hlast] at hsteps
        obtain ⟨rfl, hp⟩ := List.append_inj' hsteps rfl
        rw [List.singleton_inj] at hp
        rw [hp]
        exact .inr ⟨r, hreturns⟩
      · exact .inl (hrejected.pending before o after hcall hlast)
    simp only [c, Transition.run_concat] at hevent ⊢
    dsimp only at htakes
    rcases hevent with hevent | ⟨r, hevent⟩
    · rw [hevent] at htakes
      exact congrArg slots htakes
    · rw [hevent] at htakes
      exact congrArg slots (eq_of_checkAndReserve_false htakes)
  · intro front p _
    have hanswers := answers_step maxNetQty maxNotional front p
    dsimp only at hanswers
    rwa [← watched_concat, config_watched, config_watched] at hanswers

/-- Two buys of six, under a limit of ten: both threads load the empty slot, the first one reserves,
and the compare-exchange of the second fails and finds the limit reached. -/
def contendedSteps : List (Bool × Outcome) :=
  [false, true, false, true, false, true].map
    (·, ⟨.checkAndReserve ⟨0, .buy, 6, 100⟩, false⟩)

example :
    (Transition.run (Interleaving.step act) (start 10 1000) contendedSteps).shared.slots 0 = 6 ∧
    event (Transition.run (Interleaving.step act) (start 10 1000) (contendedSteps.take 5))
      (true, ⟨.checkAndReserve ⟨0, .buy, 6, 100⟩, false⟩) = some (.rejected ⟨0, .buy, 6, 100⟩) := by
  decide

end Race

end PositionLimits

end QuantTrade
