import Mathlib.Data.List.AList
import Mathlib.Data.List.Induction
import QuantTrade.Library.Transition

/-!
# Stores with one state for each key

A store keeps a state for each key and makes it on first use.  Every event belongs to one key and
moves the state of that key (`route`).  What a run of events leaves under a key is the run of the
events of that key alone (`get_run_route`).  An observation that each event overwrites is what the
last event made of it (`observe_run`).
-/

namespace KeyedStore

open Transition (run)

variable {κ σ ε : Type*} [DecidableEq κ]

/-- The state of a key; a key that was not used has the initial one. -/
def get (initial : κ → σ) (store : AList fun _ : κ => σ) (k : κ) : σ :=
  (store.lookup k).getD (initial k)

/-- An event moves the state of its key. -/
def route (initial : κ → σ) (key : ε → κ) (step : σ → ε → σ) (store : AList fun _ : κ => σ)
    (e : ε) : AList fun _ : κ => σ :=
  store.insert (key e) (step (get initial store (key e)) e)

variable {initial : κ → σ} {key : ε → κ} {step : σ → ε → σ}

@[simp] lemma get_empty (k : κ) : get initial (∅ : AList fun _ : κ => σ) k = initial k := rfl

lemma get_of_lookup {store : AList fun _ : κ => σ} {k : κ} {s : σ} (h : store.lookup k = some s) :
    get initial store k = s := by
  rw [get, h, Option.getD_some]

/-- An event of the key takes a step there. -/
lemma get_route_of_eq {e : ε} {k : κ} (h : key e = k) (store : AList fun _ : κ => σ) :
    get initial (route initial key step store e) k = step (get initial store k) e := by
  subst h
  exact get_of_lookup (AList.lookup_insert store)

/-- An event of another key changes nothing. -/
lemma lookup_route_of_ne {e : ε} {k : κ} (h : key e ≠ k) (store : AList fun _ : κ => σ) :
    (route initial key step store e).lookup k = store.lookup k :=
  AList.lookup_insert_ne h.symm

/-- The state of a key after a run of events is where the events of that key lead. -/
theorem get_run_route (store : AList fun _ : κ => σ) (es : List ε) (k : κ) :
    get initial (run (route initial key step) store es) k =
      run step (get initial store k) (es.filter (key · = k)) := by
  induction es generalizing store with
  | nil => rfl
  | cons e es ih =>
    rw [Transition.run_cons, ih]
    by_cases he : key e = k
    · have hfilter : (e :: es).filter (key · = k) = e :: es.filter (key · = k) := by simp [he]
      rw [hfilter, Transition.run_cons, get_route_of_eq he]
    · have hfilter : (e :: es).filter (key · = k) = es.filter (key · = k) := by simp [he]
      rw [hfilter, get, lookup_route_of_ne he, ← get]

/-- A key is in the store when it was there before or an event used it. -/
theorem mem_run_route {store : AList fun _ : κ => σ} {es : List ε} {k : κ} :
    k ∈ run (route initial key step) store es ↔ k ∈ store ∨ ∃ e ∈ es, key e = k := by
  induction es generalizing store with
  | nil => simp
  | cons e es ih =>
    rw [Transition.run_cons, ih, route, AList.mem_insert]
    simp only [List.exists_mem_cons_iff]
    tauto

/-- An observation that every event overwrites is what the last event made of it. -/
theorem observe_run {ω : Type*} {observe : σ → ω} {f : ε → ω}
    (h : ∀ s e, observe (step s e) = f e) (s : σ) (es : List ε) :
    observe (run step s es) = (es.getLast?.map f).getD (observe s) := by
  induction es using List.reverseRecOn with
  | nil => rfl
  | append_singleton es e _ =>
    rw [Transition.run_concat, h, List.getLast?_append_of_ne_nil _ (List.cons_ne_nil e [])]
    rfl

end KeyedStore
