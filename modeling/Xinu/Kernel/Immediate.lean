import Xinu.Kernel.Machine

/-!
# Routines that do not block

A routine of a library whose system calls all return at once, as `semcreate` and `getmem` do, runs from its call to its return with no
other event in between (`execute_reaches`). Its result is then a function of the kernel and of the library's data.
-/

namespace Xinu

namespace Client

/-- The routine that has come to `x` goes on until it returns, for at most `n` system calls, each of which returns at once. -/
def execute (C : Client) (pid : Int) : Nat → Kernel QueueTab → C.Data × Next C.F → Option (Kernel QueueTab × C.Data × Int)
  | _, k, (d, .ret v) => some (k, d, v)
  | n + 1, k, (d, .call c f) =>
    match (k.call c).2 with
    | .ret v =>
      if (k.call c).1.currpid = k.currpid ∧ (k.call c).1.status = k.status then
        execute C pid n (k.call c).1 (C.resume d pid f v)
      else .none
    | _ => .none
  | _, _, _ => .none

variable {C : Client} {pid v : Int} {n : Nat} {k : Kernel QueueTab} {d : C.Data} {c : Call} {f : C.F}

theorem execute_ret : execute C pid n k (d, .ret v) = some (k, d, v) := by
  cases n <;> rfl

/-- A system call that returns at once. -/
theorem execute_call (hv : (k.call c).2 = .ret v) (hcur : (k.call c).1.currpid = k.currpid)
    (hst : (k.call c).1.status = k.status) :
    execute C pid (n + 1) k (d, .call c f) = execute C pid n (k.call c).1 (C.resume d pid f v) := by
  simp only [execute, hv, hcur, hst, and_self, if_true]

end Client

namespace Machine

variable {C : Client} {m : Machine C} {n : Nat} {x : C.Data × Next C.F} {rest : List (Frame C.F)}

/-- The machine runs the routine to its end, and only the current process goes on. -/
theorem execute_reaches {k' : Kernel QueueTab} {d' : C.Data} {v : Int} (hrun : m.k.status = .running)
    (h : C.execute m.k.currpid n m.k x = some (k', d', v)) :
    Reach (fun _ e => e = .cont) (m.follow rest x) ({ m with k := k', data := d' }.setStack m.k.currpid rest) := by
  induction n generalizing m x with
  | zero =>
    obtain ⟨d, w | ⟨c, f⟩ | f | s⟩ := x
    · obtain ⟨rfl, rfl, rfl⟩ : m.k = k' ∧ d = d' ∧ w = v := by simpa [Client.execute] using h
      exact .refl
    · cases h
    · cases h
    · cases h
  | succ n ih =>
    obtain ⟨d, w | ⟨c, f⟩ | f | s⟩ := x
    · obtain ⟨rfl, rfl, rfl⟩ : m.k = k' ∧ d = d' ∧ w = v := by simpa [Client.execute] using h
      exact .refl
    · simp only [Client.execute] at h
      split at h
      · next w hw =>
        split at h
        · next hsame =>
          -- after the call the frame of the routine is below the value returned
          let m₁ := m.follow rest (d, .call c f)
          have hcur : m₁.k.currpid = m.k.currpid := hsame.1
          have hst : m₁.k.status = .running := hsame.2.trans hrun
          have hstk : m₁.stack = .kernel (.ret w) :: .client f :: rest := by
            have : m₁.context m.k.currpid = .kernel (m.k.call c).2 :: .client f :: rest := Function.update_self _ _ _
            rw [stack, hcur, this, hw]
          have hstep : m₁.step .cont = some (m₁.follow rest (C.resume d m.k.currpid f w)) := by
            simp only [step, hstk, hst]
            rw [hcur]
            rfl
          have hend : ({ m₁ with k := k', data := d' }).setStack m₁.k.currpid rest =
              ({ m with k := k', data := d' }).setStack m.k.currpid rest := by
            rw [hcur]
            exact congrArg (fun ctx => Machine.mk k' ctx d') (Function.update_idem _ _ _)
          rw [← hend]
          refine Reach.trans (Reach.step _ .refl rfl hstep) (ih hst ?_)
          rw [hcur]
          exact h
        · cases h
      · cases h
    · cases h
    · cases h

end Machine

end Xinu
