import QuantTrade.Library.AtomicProgram
import QuantTrade.Library.Interleaving

/-!
# Calls under a lock

Any number of threads call the operations of an object whose memory is guarded by one lock.  A call
sets the flag of the lock, performs the accesses of its program one by one, clears the flag and
returns; a thread that finds the flag set tries again.  Between any two of these steps the other
threads may take steps of theirs.

`Linearized` says that nobody can tell such a run from one in which the calls happen at once, one
after the other, in the order in which they left the lock: every answer is the one of that order,
the order has the calls of each thread as the thread made them, and a memory that nobody guards is
the one this order leads to.  Since the order only grows at its end (`log_prefix`), a call that
returned before another one began stands before it.
-/

namespace CriticalSection

variable {σ ι Op ρ : Type*}

/-- Where a client stands. -/
inductive Place (σ Op ρ : Type*) where
  | outside
  | waiting (op : Op)
  | inside (op : Op) (rest : AtomicProgram σ ρ)
  | leaving (op : Op) (r : ρ)

/-- The lock and the memory it guards.  The flag is set when there is a holder; the log of the calls
that left the lock is not in the memory of any client. -/
structure Guarded (σ ι Op ρ : Type*) where
  holder : Option ι
  memory : σ
  log : List (ι × Op × ρ)

/-- A client, with the calls it made and the answers it got. -/
structure Client (σ Op ρ : Type*) where
  place : Place σ Op ρ
  issued : List Op
  answers : List (Op × ρ)

variable (code : Op → AtomicProgram σ ρ)

/-- One step of the client `t`; `op` is the call it makes next. -/
def act (t : ι) (s : Guarded σ ι Op ρ) (l : Client σ Op ρ) (op : Op) :
    Guarded σ ι Op ρ × Client σ Op ρ :=
  match l.place with
  | .outside => (s, { l with place := .waiting op, issued := l.issued ++ [op] })
  | .waiting op' =>
    match s.holder with
    | some _ => (s, l)
    | none => ({ s with holder := some t }, { l with place := .inside op' (code op') })
  | .inside op' (.access change next) =>
    ({ s with memory := change s.memory }, { l with place := .inside op' (next s.memory) })
  | .inside op' (.ret r) =>
    ({ s with holder := none, log := s.log ++ [(t, op', r)] }, { l with place := .leaving op' r })
  | .leaving op' r => (s, { l with place := .outside, answers := l.answers ++ [(op', r)] })

/-- A free lock, and clients that have not called yet. -/
def init (m : σ) : Interleaving.Config (Guarded σ ι Op ρ) ι (Client σ Op ρ) where
  shared := { holder := none, memory := m, log := [] }
  locals := fun _ => { place := .outside, issued := [], answers := [] }

/-! ## The calls one after the other -/

section Spec

variable (spec : Op → σ → σ × ρ)

/-- The memory after the calls of a log, each of which happens at once. -/
def after (m : σ) (log : List (ι × Op × ρ)) : σ :=
  log.foldl (fun m e => (spec e.2.1 m).1) m

/-- Every answer of the log is the one that the call gives after the calls before it. -/
def Legal (m : σ) : List (ι × Op × ρ) → Prop
  | [] => True
  | e :: log => e.2.2 = (spec e.2.1 m).2 ∧ Legal (spec e.2.1 m).1 log

lemma after_concat (m : σ) (log : List (ι × Op × ρ)) (e : ι × Op × ρ) :
    after spec m (log ++ [e]) = (spec e.2.1 (after spec m log)).1 := by
  rw [after, after, List.foldl_concat]

lemma legal_concat {m : σ} {log : List (ι × Op × ρ)} {e : ι × Op × ρ} :
    Legal spec m (log ++ [e]) ↔
      Legal spec m log ∧ e.2.2 = (spec e.2.1 (after spec m log)).2 := by
  induction log generalizing m with
  | nil => simp [Legal, after]
  | cons e' log ih =>
    rw [List.cons_append, Legal, Legal, ih, and_assoc]
    rfl

/-- The answer of a call in a legal log, from the calls before it. -/
lemma Legal.answer_eq {m : σ} {before behind : List (ι × Op × ρ)} {e : ι × Op × ρ}
    (h : Legal spec m (before ++ e :: behind)) :
    e.2.2 = (spec e.2.1 (after spec m before)).2 := by
  induction before generalizing m with
  | nil => exact h.1
  | cons e' before ih => exact ih h.2

/-- An invariant of the calls holds of the memory after any log. -/
lemma after_induction {P : σ → List (ι × Op × ρ) → Prop} {m : σ} (hinit : P m [])
    (hcall : ∀ m log e, P m log → P (spec e.2.1 m).1 (log ++ [e])) (log : List (ι × Op × ρ)) :
    P (after spec m log) log := by
  induction log using List.reverseRecOn with
  | nil => exact hinit
  | append_singleton log e ih =>
    rw [after_concat]
    exact hcall _ _ e ih

end Spec

/-- The calls of the client `t` in a log. -/
def callsOf [DecidableEq ι] (t : ι) (log : List (ι × Op × ρ)) : List (Op × ρ) :=
  log.filterMap fun e => if e.1 = t then some e.2 else none

section

variable [DecidableEq ι]

lemma callsOf_concat_self (t : ι) (log : List (ι × Op × ρ)) (p : Op × ρ) :
    callsOf t (log ++ [(t, p)]) = callsOf t log ++ [p] := by
  simp [callsOf]

lemma callsOf_concat_of_ne {t t' : ι} (h : t' ≠ t) (log : List (ι × Op × ρ)) (p : Op × ρ) :
    callsOf t' (log ++ [(t, p)]) = callsOf t' log := by
  simp [callsOf, Ne.symm h]

/-! ## What the clients know -/

variable (spec : Op → σ → σ × ρ)

/-- The order of the log explains the run. -/
structure Linearized (m : σ) (c : Interleaving.Config (Guarded σ ι Op ρ) ι (Client σ Op ρ)) :
    Prop where
  legal : Legal spec m c.shared.log
  free : c.shared.holder = none → c.shared.memory = after spec m c.shared.log
  issued : ∀ t, ((callsOf t c.shared.log).map Prod.fst) <+: (c.locals t).issued ∧
    (c.locals t).issued.length ≤ (callsOf t c.shared.log).length + 1
  answers : ∀ t, (c.locals t).answers <+: callsOf t c.shared.log ∧
    (callsOf t c.shared.log).length ≤ (c.locals t).answers.length + 1

/-- The client is between setting the flag and clearing it. -/
def Client.Inside (l : Client σ Op ρ) : Prop :=
  ∃ op rest, l.place = .inside op rest

/-- The lock: its answers are in order, and nobody has touched the memory when it is free. -/
def Lock (m : σ) (s : Guarded σ ι Op ρ) : Prop :=
  Legal spec m s.log ∧ (s.holder = none → s.memory = after spec m s.log)

/-- A client: what is left of its call leads from the memory as it is to where the whole call leads
from the memory it found. -/
def Accounted (m : σ) (t : ι) (s : Guarded σ ι Op ρ) (l : Client σ Op ρ) : Prop :=
  match l.place with
  | .outside =>
    s.holder ≠ some t ∧ l.answers = callsOf t s.log ∧
      l.issued = (callsOf t s.log).map Prod.fst
  | .waiting op =>
    s.holder ≠ some t ∧ l.answers = callsOf t s.log ∧
      l.issued = (callsOf t s.log).map Prod.fst ++ [op]
  | .inside op rest =>
    s.holder = some t ∧ rest.exec s.memory = spec op (after spec m s.log) ∧
      l.answers = callsOf t s.log ∧ l.issued = (callsOf t s.log).map Prod.fst ++ [op]
  | .leaving op r =>
    s.holder ≠ some t ∧ l.answers ++ [(op, r)] = callsOf t s.log ∧
      l.issued = (callsOf t s.log).map Prod.fst

/-! ## Every interleaving -/

variable {code} {spec}

/-- What a client does with its own assertion and with the lock. -/
lemma accounted_act {m : σ} {t : ι} {s : Guarded σ ι Op ρ} {l : Client σ Op ρ} (op : Op)
    (hcode : ∀ op m, (code op).exec m = spec op m) (hs : Lock spec m s)
    (hl : Accounted spec m t s l) :
    Lock spec m (act code t s l op).1 ∧
      Accounted spec m t (act code t s l op).1 (act code t s l op).2 := by
  obtain ⟨place, issued, answers⟩ := l
  cases place with
  | outside =>
    obtain ⟨hholder, hanswers, hissued⟩ := hl
    exact ⟨hs, hholder, hanswers, congrArg (· ++ [op]) hissued⟩
  | waiting op' =>
    obtain ⟨hholder, hanswers, hissued⟩ := hl
    cases hfree : s.holder with
    | some t' =>
      simp only [act, hfree]
      exact ⟨hs, hholder, hanswers, hissued⟩
    | none =>
      -- the memory that the call finds is the one after the calls before it
      simp only [act, hfree]
      refine ⟨⟨hs.1, fun h => absurd h (Option.some_ne_none t)⟩, rfl, ?_, hanswers, hissued⟩
      rw [hcode, hs.2 hfree]
  | inside op' rest =>
    obtain ⟨hholder, hexec, hanswers, hissued⟩ := hl
    cases rest with
    | access change next =>
      refine ⟨⟨hs.1, fun h => ?_⟩, hholder, hexec, hanswers, hissued⟩
      exact absurd (hholder.symm.trans h) (Option.some_ne_none t)
    | ret r =>
      -- nothing is left, so the memory is the one after the whole call
      have hmem : s.memory = (spec op' (after spec m s.log)).1 := congrArg Prod.fst hexec
      have hret : r = (spec op' (after spec m s.log)).2 := congrArg Prod.snd hexec
      simp only [act]
      refine ⟨⟨legal_concat spec |>.mpr ⟨hs.1, hret⟩, fun _ => ?_⟩, Option.some_ne_none t |>.symm,
        ?_, ?_⟩
      · rw [after_concat, hmem]
      · rw [callsOf_concat_self, ← hanswers]
      · rw [callsOf_concat_self, List.map_append]
        exact hissued
  | leaving op' r =>
    obtain ⟨hholder, hanswers, hissued⟩ := hl
    exact ⟨hs, hholder, hanswers, hissued⟩

/-- A step of a client leaves the others as they are: it touches the memory only when it holds the
lock, and logs only calls of its own. -/
lemma accounted_of_ne {m : σ} {t t' : ι} {s : Guarded σ ι Op ρ} {l l' : Client σ Op ρ} (op : Op)
    (hl : Accounted spec m t s l) (hne : t' ≠ t) (hl' : Accounted spec m t' s l') :
    Accounted spec m t' (act code t s l op).1 l' := by
  obtain ⟨place, issued, answers⟩ := l
  cases place with
  | outside => exact hl'
  | leaving op' r => exact hl'
  | waiting op' =>
    cases hfree : s.holder with
    | some t'' =>
      simp only [act, hfree]
      exact hl'
    | none =>
      simp only [act, hfree]
      have hother : some t ≠ some t' := fun h => hne (Option.some_inj.mp h).symm
      unfold Accounted at hl' ⊢
      split at hl' <;> simp_all
  | inside op' rest =>
    -- the other client is not inside, as the lock has one holder
    have hholder : s.holder = some t := hl.1
    have hother : some t ≠ some t' := fun h => hne (Option.some_inj.mp h).symm
    cases rest with
    | access change next =>
      unfold Accounted at hl' ⊢
      split at hl' <;> simp_all [act]
    | ret r =>
      unfold Accounted at hl' ⊢
      split at hl' <;> simp_all [act, callsOf_concat_of_ne hne]

lemma inductive_accounted (hcode : ∀ op m, (code op).exec m = spec op m) (m : σ) :
    Interleaving.Inductive (act code) (fun (_ : ι) _ _ _ => True) (Lock spec m)
      (Accounted spec m) where
  shared := fun _ _ _ op _ hs hl => (accounted_act op hcode hs hl).1
  own := fun _ _ _ op _ hs hl => (accounted_act op hcode hs hl).2
  others := fun _ _ _ op _ _ hl _ _ hne hl' => accounted_of_ne op hl hne hl'

lemma holds_init (m : σ) :
    Interleaving.Holds (Lock spec m) (Accounted spec m)
      (init m : Interleaving.Config (Guarded σ ι Op ρ) ι (Client σ Op ρ)) where
  shared := ⟨trivial, fun _ => rfl⟩
  locals := fun _ => ⟨Option.some_ne_none _ |>.symm, rfl, rfl⟩

variable (code) in
/-- The clients, after the steps `as` of any of them. -/
def run (m : σ) (as : List (ι × Op)) :
    Interleaving.Config (Guarded σ ι Op ρ) ι (Client σ Op ρ) :=
  Transition.run (Interleaving.step (act code)) (init m) as

lemma holds_run (hcode : ∀ op m, (code op).exec m = spec op m) (m : σ) (as : List (ι × Op)) :
    Interleaving.Holds (Lock spec m) (Accounted spec m) (run code m as) :=
  Interleaving.Holds.run (inductive_accounted hcode m)
    (Transition.admissible_of_forall _ (fun _ _ _ => trivial) _) (holds_init m)

variable (code) in
/-- The calls refine what their programs do on their own. -/
lemma holds_run_exec (m : σ) (as : List (ι × Op)) :
    Interleaving.Holds (Lock (fun op => (code op).exec) m) (Accounted (fun op => (code op).exec) m)
      (run code m as) :=
  holds_run (fun _ _ => rfl) m as

/-- **Linearization rule.**  The order in which the calls leave the lock explains every run. -/
theorem linearized_run (hcode : ∀ op m, (code op).exec m = spec op m) (m : σ)
    (as : List (ι × Op)) : Linearized spec m (run code m as) := by
  obtain ⟨⟨hlegal, hfree⟩, hlocals⟩ := holds_run hcode m as
  refine ⟨hlegal, hfree, fun t => ?_, fun t => ?_⟩
  · have hclient := hlocals t
    unfold Accounted at hclient
    split at hclient
    · rw [hclient.2.2]
      simp
    · rw [hclient.2.2]
      simp
    · rw [hclient.2.2.2]
      simp
    · rw [hclient.2.2]
      simp
  · have hclient := hlocals t
    unfold Accounted at hclient
    split at hclient
    · rw [hclient.2.1]
      simp
    · rw [hclient.2.1]
      simp
    · rw [hclient.2.2.1]
      simp
    · rw [← hclient.2.1]
      simp

/-- **Mutual exclusion.**  At most one client is between setting the flag and clearing it. -/
theorem exclusive_run (code : Op → AtomicProgram σ ρ) (m : σ) (as : List (ι × Op)) {t t' : ι}
    (ht : ((run code m as).locals t).Inside) (ht' : ((run code m as).locals t').Inside) :
    t = t' := by
  have holder_of_inside {t : ι} (h : ((run code m as).locals t).Inside) :
      (run code m as).shared.holder = some t := by
    obtain ⟨op, rest, hplace⟩ := h
    have hclient := (holds_run_exec code m as).locals t
    rw [Accounted, hplace] at hclient
    exact hclient.1
  exact Option.some_inj.mp ((holder_of_inside ht).symm.trans (holder_of_inside ht'))

variable (code)

/-- Calls leave the lock one after the other: what has been logged stays at the front. -/
lemma log_prefix_step (c : Interleaving.Config (Guarded σ ι Op ρ) ι (Client σ Op ρ))
    (p : ι × Op) : c.shared.log <+: (Interleaving.step (act code) c p).shared.log := by
  obtain ⟨t, op⟩ := p
  rw [Interleaving.shared_step, act]
  split
  · exact List.prefix_rfl
  · split
    · exact List.prefix_rfl
    · exact List.prefix_rfl
  · exact List.prefix_rfl
  · exact List.prefix_append _ _
  · exact List.prefix_rfl

/-- **The order respects real time.**  The order after a part of a run is the first part of the
order after the whole run. -/
theorem log_prefix (m : σ) (as bs : List (ι × Op)) :
    (run code m as).shared.log <+: (run code m (as ++ bs)).shared.log := by
  rw [run, run, Transition.run_append]
  generalize Transition.run (Interleaving.step (act code)) (init m) as = c
  induction bs generalizing c with
  | nil => exact List.prefix_rfl
  | cons p bs ih => exact (log_prefix_step code c p).trans (ih _)

/-! ## Progress -/

/-- A client that holds the lock and runs alone frees it and returns. -/
lemma exists_finish (t : ι) (op op' : Op) (rest : AtomicProgram σ ρ)
    (c : Interleaving.Config (Guarded σ ι Op ρ) ι (Client σ Op ρ))
    (hplace : (c.locals t).place = .inside op' rest) :
    ∃ n, ∃ c', c' = Transition.run (Interleaving.step (act code)) c (List.replicate n (t, op)) ∧
      c'.shared.holder = none ∧ (c'.locals t).place = .outside ∧
        ∀ t', t' ≠ t → c'.locals t' = c.locals t' := by
  induction rest generalizing c with
  | ret r =>
    refine ⟨2, _, rfl, ?_, ?_, ?_⟩
    · simp [List.replicate, act, hplace]
    · simp [List.replicate, act, hplace]
    · intro t' hne
      simp [List.replicate, Interleaving.locals_step_of_ne _ _ hne]
  | access change next ih =>
    have hnext : ((Interleaving.step (act code) c (t, op)).locals t).place =
        .inside op' (next c.shared.memory) := by
      simp [act, hplace]
    obtain ⟨n, c', hrun, hholder, hout, hframe⟩ := ih _ _ hnext
    refine ⟨n + 1, c', ?_, hholder, hout, ?_⟩
    · rw [hrun, List.replicate_succ, Transition.run_cons]
    · intro t' hne
      rw [hframe t' hne, Interleaving.locals_step_of_ne _ _ hne]

/-- A client that waits for a free lock and runs alone gets it, frees it and returns. -/
lemma exists_finish_of_free (t : ι) (op op' : Op)
    (c : Interleaving.Config (Guarded σ ι Op ρ) ι (Client σ Op ρ))
    (hfree : c.shared.holder = none) (hplace : (c.locals t).place = .waiting op') :
    ∃ bs, ((Transition.run (Interleaving.step (act code)) c bs).locals t).place = .outside := by
  have hinside : ((Interleaving.step (act code) c (t, op)).locals t).place =
      .inside op' (code op') := by
    simp [act, hplace, hfree]
  obtain ⟨n, c', hrun, -, hout, -⟩ := exists_finish code t op op' (code op') _ hinside
  refine ⟨(t, op) :: List.replicate n (t, op), ?_⟩
  rw [Transition.run_cons, ← hrun]
  exact hout

/-- **No deadlock.**  Every call can be brought to its end from every state that a run reaches. -/
theorem exists_return (m : σ) (as : List (ι × Op)) (t : ι) (op : Op) :
    ∃ bs, ((run code m (as ++ bs)).locals t).place = .outside := by
  simp only [run, Transition.run_append]
  have hc := holds_run_exec code m as
  rw [run] at hc
  generalize Transition.run (Interleaving.step (act code)) (init m) as = c at hc
  cases hplace : (c.locals t).place with
  | outside => exact ⟨[], hplace⟩
  | leaving op' r => exact ⟨[(t, op)], by simp [act, hplace]⟩
  | inside op' rest =>
    obtain ⟨n, c', hrun, -, hout, -⟩ := exists_finish code t op op' rest c hplace
    exact ⟨List.replicate n (t, op), hrun ▸ hout⟩
  | waiting op' =>
    cases hholder : c.shared.holder with
    | none => exact exists_finish_of_free code t op op' c hholder hplace
    | some t' =>
      -- the holder goes first
      have hother := hc.locals t'
      obtain ⟨op'', rest, hplace'⟩ : (c.locals t').Inside := by
        unfold Accounted at hother
        split at hother
        · exact absurd hholder hother.1
        · exact absurd hholder hother.1
        · exact ⟨_, _, by assumption⟩
        · exact absurd hholder hother.1
      obtain ⟨n, c', hrun, hfree, hout, hframe⟩ := exists_finish code t' op op'' rest c hplace'
      by_cases hne : t = t'
      · exact ⟨List.replicate n (t', op), by rw [← hrun, hne]; exact hout⟩
      · have hwait : (c'.locals t).place = .waiting op' := by rw [hframe t hne, hplace]
        obtain ⟨bs, hbs⟩ := exists_finish_of_free code t op op' c' hfree hwait
        exact ⟨List.replicate n (t', op) ++ bs, by rw [Transition.run_append, ← hrun]; exact hbs⟩

end

end CriticalSection
