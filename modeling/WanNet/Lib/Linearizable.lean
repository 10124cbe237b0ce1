import Mathlib.Data.List.Nodup
import Mathlib.Data.List.Perm.Basic
import Mathlib.Data.List.Sublists

/-!
Linearizability of a history of calls on a shared object: a sequential execution of the object that
gives every call its result and keeps the order of calls that do not overlap.
-/

namespace Concurrent

/-- What an operation does to a state of the object, and what it returns. -/
structure Object (op ret σ : Type) where
  start : σ
  apply : σ → op → σ × ret

inductive Event (op ret : Type) where
  | invoke (id : Nat) (o : op)
  | response (id : Nat) (r : ret)
  deriving DecidableEq

structure Entry (op ret : Type) where
  id : Nat
  op : op
  ret : ret
  deriving DecidableEq

variable {op ret σ : Type} {O : Object op ret σ} {h : List (Event op ret)} {order : List (Entry op ret)} {s : σ}
  {e : Entry op ret} {i : Nat} {o : op} {r : ret}

/-- The calls in this order take the object from one state to the other, with these results. -/
def Executes (O : Object op ret σ) : σ → List (Entry op ret) → σ → Prop
  | s, [], t => s = t
  | s, e :: rest, t => (O.apply s e.op).2 = e.ret ∧ Executes O (O.apply s e.op).1 rest t

/-- The call `i` returned before the call `j` began. -/
def Precedes (h : List (Event op ret)) (i j : Nat) : Prop :=
  ∃ r o, List.Sublist [.response i r, .invoke j o] h

/-- `order` holds every call that returned, with its result, may hold calls that are not over, and
explains them all. -/
structure Explains (O : Object op ret σ) (h : List (Event op ret)) (order : List (Entry op ret)) (s : σ) : Prop where
  ids : (order.map Entry.id).Nodup
  invoked : ∀ e ∈ order, .invoke e.id e.op ∈ h
  returned : ∀ i r, .response i r ∈ h → ∃ o, ⟨i, o, r⟩ ∈ order
  executes : Executes O O.start order s
  realtime : order.Pairwise fun a b => ¬ Precedes h b.id a.id

def Linearizable (O : Object op ret σ) (h : List (Event op ret)) : Prop := ∃ order s, Explains O h order s

theorem Executes.append_one {s t u : σ} (executes : Executes O s order t) (is : O.apply t e.op = (u, e.ret)) :
    Executes O s (order ++ [e]) u := by
  induction order generalizing s with
  | nil =>
    obtain rfl := executes
    exact ⟨by rw [is], by rw [is]; rfl⟩
  | cons a order ih => exact ⟨executes.1, ih executes.2⟩

theorem Executes.split {s u : σ} {before after : List (Entry op ret)} (executes : Executes O s (before ++ after) u) :
    ∃ t, Executes O s before t ∧ Executes O t after u := by
  induction before generalizing s with
  | nil => exact ⟨s, rfl, executes⟩
  | cons a before ih =>
    obtain ⟨t, first, rest⟩ := ih executes.2
    exact ⟨t, ⟨executes.1, first⟩, rest⟩

theorem Precedes.response_mem (before : Precedes h i j) : ∃ r, Event.response i r ∈ h := by
  obtain ⟨r, o, sub⟩ := before
  exact ⟨r, sub.subset (.head _)⟩

theorem Precedes.of_append_one {x : Event op ret} (before : Precedes (h ++ [x]) i j) :
    Precedes h i j ∨ ∃ o, x = .invoke j o := by
  obtain ⟨r, o, sub⟩ := before
  obtain ⟨l₁, l₂, split, sub₁, sub₂⟩ := List.sublist_append_iff.mp sub
  rcases List.sublist_singleton.mp sub₂ with rfl | rfl
  · rw [List.append_nil] at split
    exact .inl ⟨r, o, split ▸ sub₁⟩
  · have ends := congrArg List.getLast? split
    rw [List.getLast?_append_of_ne_nil _ (by simp)] at ends
    exact .inr ⟨o, (Option.some.inj ends).symm⟩

/-- A call that returned has its result in the order. -/
theorem Explains.ret_eq (ex : Explains O h order s) (member : e ∈ order) (returned : .response e.id r ∈ h) : e.ret = r := by
  obtain ⟨o, there⟩ := ex.returned _ r returned
  rw [List.inj_on_of_nodup_map ex.ids member there rfl]

theorem Explains.init : Explains O [] [] O.start :=
  ⟨List.nodup_nil, nofun, nofun, rfl, List.Pairwise.nil⟩

theorem Explains.invoke (ex : Explains O h order s) (new : ∀ o, .invoke i o ∉ h) : Explains O (h ++ [.invoke i o]) order s := by
  refine ⟨ex.ids, fun e member => List.mem_append_left _ (ex.invoked e member), fun j r member => ?_, ex.executes, ?_⟩
  · rcases List.mem_append.mp member with old | last
    · exact ex.returned j r old
    · cases List.mem_singleton.mp last
  · refine ex.realtime.imp_of_mem fun {a b} ha _ before later => ?_
    rcases later.of_append_one with old | ⟨o, is⟩
    · exact before old
    · cases is
      exact new _ (ex.invoked a ha)

theorem Explains.commit (ex : Explains O h order s) (invoked : .invoke i o ∈ h) (new : i ∉ order.map Entry.id)
    (is : O.apply s o = (t, r)) : Explains O h (order ++ [⟨i, o, r⟩]) t := by
  refine ⟨?_, fun e member => ?_, fun j r member => ?_, ex.executes.append_one is, ?_⟩
  · rw [List.map_append, List.nodup_append]
    refine ⟨ex.ids, List.nodup_singleton _, ?_⟩
    rintro a ha b hb rfl
    obtain rfl : a = i := List.mem_singleton.mp hb
    exact new ha
  · rcases List.mem_append.mp member with old | last
    · exact ex.invoked e old
    · obtain rfl := List.mem_singleton.mp last
      exact invoked
  · obtain ⟨o, old⟩ := ex.returned j r member
    exact ⟨o, List.mem_append_left _ old⟩
  · refine List.pairwise_append.mpr ⟨ex.realtime, List.pairwise_singleton .., fun a ha b hb before => ?_⟩
    obtain rfl := List.mem_singleton.mp hb
    obtain ⟨r, returned⟩ := before.response_mem
    obtain ⟨o, old⟩ := ex.returned i r returned
    exact new (List.mem_map.mpr ⟨_, old, rfl⟩)

theorem Explains.response (ex : Explains O h order s) (took : ⟨i, o, r⟩ ∈ order) : Explains O (h ++ [.response i r]) order s := by
  refine ⟨ex.ids, fun e member => List.mem_append_left _ (ex.invoked e member), fun j r' member => ?_, ex.executes, ?_⟩
  · rcases List.mem_append.mp member with old | last
    · exact ex.returned j r' old
    · cases List.mem_singleton.mp last
      exact ⟨o, took⟩
  · refine ex.realtime.imp fun {a b} before later => ?_
    rcases later.of_append_one with old | ⟨o, is⟩
    · exact before old
    · cases is

end Concurrent
