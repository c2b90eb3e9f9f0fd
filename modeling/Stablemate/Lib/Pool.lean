import Mathlib.Data.List.Perm.Basic

/-!
# Pools of threads

A pool is a list of threads, each held as what it does next. When a thread does an operation,
the threads that come of it take its place: itself with its next operation, and those it
started.

* `perm_swap`, `mem_swap`: the other threads stay as they are.
* `countP_swap`: how a count of threads changes.
* `nodup_swap`, `ne_of_mem_erase`: keys that threads hold stay distinct when the new threads hold
  no other key, and then the other threads do not hold the key of the one that goes on.
-/

namespace Stablemate.Pool

variable {τ κ : Type*} [DecidableEq τ] {t : τ} {ts threads : List τ} {x : τ}

/-- The thread `t` goes on as `ts`. -/
def swap (t : τ) (ts threads : List τ) : List τ := ts ++ threads.erase t

theorem perm_swap (h : t ∈ threads) (ts : List τ) : (t :: swap t ts threads).Perm (ts ++ threads) :=
  List.perm_middle.symm.trans ((List.perm_cons_erase h).symm.append_left ts)

theorem mem_swap : x ∈ swap t ts threads ↔ x ∈ ts ∨ x ∈ threads.erase t := List.mem_append

theorem mem_swap_left (h : x ∈ ts) : x ∈ swap t ts threads := List.mem_append_left _ h

theorem mem_swap_of_ne (h : x ∈ threads) (hne : x ≠ t) : x ∈ swap t ts threads :=
  List.mem_append_right _ ((List.mem_erase_of_ne hne).2 h)

theorem countP_swap (h : t ∈ threads) (ts : List τ) (p : τ → Bool) :
    (swap t ts threads).countP p + (if p t then 1 else 0) = ts.countP p + threads.countP p := by
  have := (perm_swap h ts).countP_eq p
  rw [List.countP_cons, List.countP_append] at this
  omega

theorem filterMap_perm {f : τ → Option κ} (h : t ∈ threads) :
    (threads.filterMap f).Perm ((f t).toList ++ (threads.erase t).filterMap f) := by
  refine ((List.perm_cons_erase h).filterMap f).trans (List.Perm.of_eq ?_)
  rw [List.filterMap_cons]
  cases f t <;> rfl

/-- With distinct keys, no other thread holds the key of `t`. -/
theorem ne_of_mem_erase {f : τ → Option κ} (h : t ∈ threads) (hnodup : (threads.filterMap f).Nodup) {k : κ}
    (ht : f t = some k) (hx : x ∈ threads.erase t) : f x ≠ some k := by
  intro hk
  have hperm := (filterMap_perm h).nodup_iff.1 hnodup
  rw [ht, Option.toList_some, List.singleton_append, List.nodup_cons] at hperm
  exact hperm.1 (List.mem_filterMap.2 ⟨x, hx, hk⟩)

/-- Distinct keys stay distinct when a thread passes its key on at most once. -/
theorem nodup_swap {f : τ → Option κ} (h : t ∈ threads) (hnodup : (threads.filterMap f).Nodup)
    (hts : (ts.filterMap f).Sublist (f t).toList) : ((swap t ts threads).filterMap f).Nodup := by
  rw [swap, List.filterMap_append]
  exact ((filterMap_perm h).nodup_iff.1 hnodup).sublist (hts.append_right _)

end Stablemate.Pool
