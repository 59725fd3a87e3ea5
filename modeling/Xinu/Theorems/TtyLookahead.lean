import Xinu.Device.Tty

/-!
# Look-ahead at the input of a tty

`ttycontrol` with `TC_NEXTC` waits for a released character, reads one and signals the semaphore again. It reads at the index
behind the last character, where the next character will be stored, and `ttygetc` reads at the index of the first one. Nothing
is changed by it in any state that is reached, so that a repetition gives the same answer; the answer is the next character only
if the same character stands at both places.
-/

namespace Xinu

/-! ## Counts stay in the range of their type -/

section Counts

variable {h h' : Kernel QLists}

/-- The counts of the semaphores are not above the range of their type. -/
def CountsHigh (h : Kernel QLists) : Prop := ∀ s, (h.semtab s).scount ≤ 2147483647

theorem CountsHigh.setSem (H : CountsHigh h) {s : Int} {e : Sentry} (he : e.scount ≤ 2147483647) :
    CountsHigh (h.setSem s e) := by
  intro t
  change (Function.update h.semtab s e t).scount ≤ 2147483647
  by_cases ht : t = s
  · subst ht
    rw [Function.update_self]
    exact he
  · rw [Function.update_of_ne ht]
    exact H t

theorem CountsHigh.setCount (H : CountsHigh h) (s c : Int) : CountsHigh (h.setCount s (int32 c)) :=
  H.setSem (int32_range c).2

theorem Change.countsHigh {κ : Kind} {b : Bool} (c : Change h κ b h') (H : CountsHigh h) : CountsHigh h' := by
  cases c with
  | aux | stop | deferStart | deferStop | resched | created | killing | stkfreed | ready | resumed | suspend | suspendSelf | chprio
  | deposit | depositRecv | depositRectim | receive | take | sleep | tick | woken | freed | freedReady | freedAsleep
  | freedSelf => exact H
  | passed s | blocked s | signalled s | released s | releasedNone s | flushed s | flushedNone s | freedWaiting _ s =>
    exact H.setCount s _
  | semcreated s c hs hf h1 h2 => exact H.setSem h2
  | semreset s c hs hu hq h1 h2 => exact H.setSem h2
  | semdeleted s => exact H.setSem (int32_range _).2

theorem countsHigh_stable : Stable (fun _ => True) (fun _ => CountsHigh) := by
  refine ⟨fun _ _ c H => c.countsHigh H, fun _ H s => ?_⟩
  rw [resched_semtab]
  exact H s

/-- The counts are in range in the initialised tty. -/
theorem ttyBoot_counts (settings : TtySettings) (minheap maxheap : Nat) (s : Int) :
    ((ttyBoot settings minheap maxheap).k.semtab s).scount ≤ 2147483647 := by
  have hsem : (ttyBoot settings minheap maxheap).k.semtab = Function.update (Function.update
      (sysinit minheap maxheap).semtab 0 ⟨.S_USED, 0⟩) 1 ⟨.S_USED, TY_OBUFLEN⟩ := rfl
  rw [hsem]
  by_cases h1 : s = 1
  · subst h1
    rw [Function.update_self]
    decide
  · rw [Function.update_of_ne h1]
    by_cases h0 : s = 0
    · subst h0
      rw [Function.update_self]
      decide
    · rw [Function.update_of_ne h0]
      change (0 : Int) ≤ 2147483647
      decide

/-- The counts are in range in every state that is reached. -/
theorem tty_counts (settings : TtySettings) (minheap maxheap : Nat) {m : Machine tty}
    (r : Machine.Reach (fun m e => m.Lawful e) (ttyBoot settings minheap maxheap) m) (s : Int) :
    (m.k.semtab s).scount ≤ 2147483647 := by
  obtain ⟨h₀, St₀, -⟩ := ttyBoot_steady settings minheap maxheap
  have H₀ : CountsHigh h₀ := by
    intro s
    rw [← St₀.sim.fields.2.2.1]
    exact ttyBoot_counts settings minheap maxheap s
  obtain ⟨h, St, H⟩ := reach_keeps (fun _ _ hok => hok) countsHigh_stable (fun _ _ H => H) St₀ H₀ r
  rw [St.sim.fields.2.2.1]
  exact H s

end Counts

/-! ## Calls of the driver that do not block -/

/-- The current process goes on until the routine of the driver returns, with what it returns. -/
def Machine.finish : Nat → Machine tty → Option (Int × Machine tty)
  | 0, _ => none
  | n + 1, m =>
    match m.segment .cont, m.step .cont with
    | some (_, .ret v), some m' => some (v, m')
    | _, some m' => finish n m'
    | _, none => none

/-- The current process calls a routine of the driver that makes at most two system calls, and nothing else happens until it
returns. -/
def Machine.ttyCall (o : TtyOp) (m : Machine tty) : Option (Int × Machine tty) := (m.step (.op o)).bind (finish 2)

/-- A sequence of look-aheads, with the answers. -/
def Machine.nextcs : Nat → Machine tty → Option (List Int × Machine tty)
  | 0, m => some ([], m)
  | n + 1, m =>
    (m.ttyCall (.ttycontrol .TC_NEXTC)).bind fun x => (nextcs n x.2).map fun y => (x.1 :: y.1, y.2)

/-- Look-ahead answers with the character that `ttygetc` would take, as often as it is repeated, and changes neither the driver
nor a semaphore. -/
def LookAheadAgrees (m : Machine tty) : Prop :=
  ∃ (ch : Nat) (w : Int) (m₁ : Machine tty), m.ttyCall .ttygetc = some (w, m₁) ∧ m₁.data.log = .taken ch :: m.data.log ∧
    ∀ n, ∃ m', m.nextcs n = some (List.replicate n (ch : Int), m') ∧ m'.data = m.data ∧ m'.k.semtab = m.k.semtab

/-- The buffer is full, so that the place for the next character is that of the first one, or what was left at that place is the
first character again. -/
def Tty.SameAtTail (t : Tty) : Prop := t.tyitail = t.tyihead ∨ t.tyibuff t.tyitail = t.tyibuff t.tyihead

/-- User code runs, and a character has been released to readers. -/
structure Machine.Released (m : Machine tty) : Prop where
  running : m.k.status = .running
  user : userMode m.stack = true
  sem : isbadsem m.data.tyisem = false
  used : (m.k.semtab m.data.tyisem).sstate = .S_USED
  low : 0 < (m.k.semtab m.data.tyisem).scount
  high : (m.k.semtab m.data.tyisem).scount ≤ 2147483647

section Calls

variable {m : Machine tty} {s : Int} {k : Kernel QueueTab}

/-- A `wait` that does not block. -/
theorem wait_passes (hs : isbadsem s = false) (hu : (k.semtab s).sstate = .S_USED) (hlow : 0 < (k.semtab s).scount)
    (hhigh : (k.semtab s).scount ≤ 2147483647) :
    k.wait s = ((k.setSem s ⟨.S_USED, (k.semtab s).scount - 1⟩).note (.passed s k.currpid), .ret OK) := by
  have hint : int32 ((k.semtab s).scount - 1) = (k.semtab s).scount - 1 := int32_of_range (by omega) (by omega)
  have hbad : ¬isbadsem s = true := by simp [hs]
  have hfree : ¬(k.semtab s).sstate = .S_FREE := by simp [hu]
  have hneg : ¬(k.semtab s).scount - 1 < 0 := by omega
  unfold Kernel.wait
  rw [if_neg hbad, if_neg hfree]
  simp only [hint, if_neg hneg, hu]
  rfl

/-- A `signal` that releases nobody. -/
theorem signal_passes (hs : isbadsem s = false) (hu : (k.semtab s).sstate = .S_USED) (hlow : 0 ≤ (k.semtab s).scount)
    (hhigh : (k.semtab s).scount < 2147483647) :
    k.signal s = ((k.setSem s ⟨.S_USED, (k.semtab s).scount + 1⟩).note (.signalled s (k.semtab s).scount), .ret OK) := by
  have hint : int32 ((k.semtab s).scount + 1) = (k.semtab s).scount + 1 := int32_of_range (by omega) (by omega)
  have hbad : ¬isbadsem s = true := by simp [hs]
  have hfree : ¬(k.semtab s).sstate = .S_FREE := by simp [hu]
  have hneg : ¬(k.semtab s).scount < 0 := by omega
  unfold Kernel.signal Kernel.signalOne
  rw [if_neg hbad, if_neg hfree]
  simp only [hint, if_neg hneg, hu]

/-- A routine that begins with a `wait` for a released character goes on behind it. -/
theorem Machine.Released.waits (R : m.Released) {o : TtyOp} {f : TtyPoint}
    (ho : tty.enter m.data m.k.currpid o = (m.data, .call (.wait m.data.tyisem) f)) :
    ∃ m₁, m.step (.op o) = some m₁ ∧ m₁.data = m.data ∧ m₁.k.status = .running ∧ m₁.k.currpid = m.k.currpid ∧
      m₁.stack = .kernel (.ret OK) :: .client f :: m.stack ∧
      m₁.k.semtab = Function.update m.k.semtab m.data.tyisem ⟨.S_USED, (m.k.semtab m.data.tyisem).scount - 1⟩ := by
  have hwait : m.k.call (.wait m.data.tyisem) = _ := wait_passes R.sem R.used R.low R.high
  refine ⟨m.follow m.stack (tty.enter m.data m.k.currpid o), if_pos ⟨R.running, R.user⟩, ?_⟩
  rw [ho]
  simp only [Machine.follow, Machine.enterCall, Machine.stack, hwait]
  exact ⟨trivial, R.running, rfl, Function.update_self _ _ _, rfl⟩

/-- The character is still there when the driver and the semaphores are the same. -/
theorem Machine.Released.same (R : m.Released) {m' : Machine tty} (hdata : m'.data = m.data) (hsem : m'.k.semtab = m.k.semtab)
    (hrun : m'.k.status = .running) (huser : userMode m'.stack = true) : m'.Released := by
  refine ⟨hrun, huser, ?_, ?_, ?_, ?_⟩
  · rw [hdata]
    exact R.sem
  · rw [hdata, hsem]
    exact R.used
  · rw [hdata, hsem]
    exact R.low
  · rw [hdata, hsem]
    exact R.high

/-- `ttygetc` takes the character at the index of the first one. -/
theorem Machine.Released.getc (R : m.Released) :
    ∃ w m₁, m.ttyCall .ttygetc = some (w, m₁) ∧ m₁.data.log = .taken (m.data.tyibuff m.data.tyihead) :: m.data.log := by
  obtain ⟨m₁, hstep, hdata, hrun, -, hstk, -⟩ := R.waits (o := .ttygetc) (f := .got .getc) rfl
  obtain ⟨-, hseg, hstep'⟩ := Machine.cont_client hstk
  have hcont := hstep' hrun
  refine ⟨m₁.data.getIn.2.getcValue m₁.data.getIn.1, m₁.follow m.stack (m₁.data.getIn.2, .ret 0), ?_, ?_⟩
  · simp only [Machine.ttyCall, hstep, Option.bind_some, Machine.finish, hseg, hcont]
    rfl
  · rw [hdata]
    rfl

/-- Look-ahead reads at the index behind the last character, and changes nothing. -/
theorem Machine.Released.nextc (R : m.Released) :
    ∃ m', m.ttyCall (.ttycontrol .TC_NEXTC) = some ((m.data.tyibuff m.data.tyitail : Int), m') ∧ m'.data = m.data ∧
      m'.k.semtab = m.k.semtab ∧ m'.Released := by
  obtain ⟨m₁, hstep, hdata, hrun, hcur, hstk, hsem⟩ := R.waits (o := .ttycontrol .TC_NEXTC) (f := .peeked) rfl
  obtain ⟨-, hseg, hstep'⟩ := Machine.cont_client hstk
  have hcont := hstep' hrun
  have hentry : m₁.k.semtab m₁.data.tyisem = ⟨.S_USED, (m.k.semtab m.data.tyisem).scount - 1⟩ := by
    rw [hsem, hdata, Function.update_self]
  have hlow := R.low
  have hhigh := R.high
  have hsignal : m₁.k.call (.signal m₁.data.tyisem) = _ :=
    signal_passes (hdata ▸ R.sem) (by rw [hentry]) (by rw [hentry]; simp only; omega) (by rw [hentry]; simp only; omega)
  obtain ⟨m₂, hm₂⟩ : ∃ m₂, m₂ = m₁.follow m.stack (tty.resume m₁.data m₁.k.currpid .peeked OK) := ⟨_, rfl⟩
  have hm₂' : m₂ = m₁.enterCall (.signal m₁.data.tyisem) (.client (.done (m₁.data.tyibuff m₁.data.tyitail)) :: m.stack) := hm₂
  rw [← hm₂] at hcont
  have hk₂ : m₂.k = (m₁.k.setSem m₁.data.tyisem ⟨.S_USED, (m₁.k.semtab m₁.data.tyisem).scount + 1⟩).note
      (.signalled m₁.data.tyisem (m₁.k.semtab m₁.data.tyisem).scount) := by
    rw [hm₂', Machine.enterCall, hsignal]
  have hstk₂ : m₂.stack = .kernel (.ret OK) :: .client (.done (m₁.data.tyibuff m₁.data.tyitail)) :: m.stack := by
    have hcur₂ : m₂.k.currpid = m₁.k.currpid := by
      rw [hk₂]
      rfl
    rw [Machine.stack, hcur₂, hm₂', Machine.enterCall, hsignal]
    exact Function.update_self _ _ _
  obtain ⟨-, hseg₂, hstep₂⟩ := Machine.cont_client hstk₂
  have hcont₂ := hstep₂ (by rw [hk₂]; exact hrun)
  have hdata₂ : m₂.data = m.data := by
    rw [hm₂', Machine.enterCall, hdata]
  have hsem₂ : m₂.k.semtab = m.k.semtab := by
    rw [hk₂]
    change Function.update m₁.k.semtab m₁.data.tyisem _ = m.k.semtab
    rw [hentry, hsem, hdata, Function.update_idem]
    simp only [Int.sub_add_cancel]
    rw [← R.used]
    exact Function.update_eq_self _ _
  have hcur₂ : m₂.k.currpid = m.k.currpid := by
    rw [hk₂]
    exact hcur
  refine ⟨m₂.setStack m₂.k.currpid m.stack, ?_, hdata₂, hsem₂, ?_⟩
  · simp only [Machine.ttyCall, hstep, Option.bind_some, Machine.finish, hseg, hcont, hseg₂, hcont₂, hdata]
    rfl
  · have hstack : (m₂.setStack m₂.k.currpid m.stack).stack = m.stack := Function.update_self _ _ _
    refine R.same hdata₂ hsem₂ ?_ (by rw [hstack]; exact R.user)
    change m₂.k.status = _
    rw [hk₂]
    exact hrun

/-- Repeated look-ahead gives the same answer every time. -/
theorem Machine.Released.nextcs (R : m.Released) (n : Nat) :
    ∃ m', m.nextcs n = some (List.replicate n (m.data.tyibuff m.data.tyitail : Int), m') ∧ m'.data = m.data ∧
      m'.k.semtab = m.k.semtab := by
  induction n generalizing m with
  | zero => exact ⟨m, rfl, rfl, rfl⟩
  | succ n ih =>
    obtain ⟨m₁, hcall, hdata, hsem, R₁⟩ := R.nextc
    obtain ⟨m₂, hrest, hdata₂, hsem₂⟩ := ih R₁
    refine ⟨m₂, ?_, hdata₂.trans hdata, hsem₂.trans hsem⟩
    simp only [Machine.nextcs, hcall, Option.bind_some, hrest, Option.map_some, hdata, List.replicate_succ]

/-- Look-ahead agrees with reading if and only if the two places hold the same character. -/
theorem Machine.Released.agrees_iff (R : m.Released) : LookAheadAgrees m ↔ m.data.SameAtTail := by
  obtain ⟨w, m₁, hgetc, hlog⟩ := R.getc
  constructor
  · rintro ⟨ch, w', m₁', hgetc', hlog', hall⟩
    obtain ⟨m', hone, -⟩ := hall 1
    obtain ⟨m'', hone', -⟩ := R.nextcs 1
    rw [hgetc] at hgetc'
    obtain rfl := (Prod.mk.inj (Option.some.inj hgetc')).2
    have hhead : m.data.tyibuff m.data.tyihead = ch := by
      rw [hlog] at hlog'
      exact TtyObs.taken.inj (List.cons.inj hlog').1
    rw [hone'] at hone
    have htail := (List.cons.inj (Prod.mk.inj (Option.some.inj hone)).1).1
    exact .inr (by omega)
  · intro hsame
    have heq : m.data.tyibuff m.data.tyitail = m.data.tyibuff m.data.tyihead := by
      rcases hsame with htail | heq
      · rw [htail]
      · exact heq
    refine ⟨_, w, m₁, hgetc, hlog, fun n => ?_⟩
    rw [← heq]
    exact R.nextcs n

/-- A character has been released when `semcount` says so. -/
theorem Machine.released_of_semcount (settings : TtySettings) (minheap maxheap : Nat)
    (r : Machine.Reach (fun m e => m.Lawful e) (ttyBoot settings minheap maxheap) m) (hrun : m.k.status = .running)
    (huser : userMode m.stack = true) {n : Int} (hcount : (m.k.semcount m.data.tyisem).2 = .ret n) (hpos : 0 < n) :
    m.Released := by
  unfold Kernel.semcount at hcount
  split at hcount
  · next hbad =>
    have hn : SYSERR = n := Resume.ret.inj hcount
    have : SYSERR = -1 := rfl
    omega
  · next hgood =>
    simp only [Bool.or_eq_true, decide_eq_true_eq, not_or] at hgood
    have hn : (m.k.semtab m.data.tyisem).scount = n := Resume.ret.inj hcount
    exact ⟨hrun, huser, eq_false_of_ne_true hgood.1, sstate_used hgood.2, by omega, tty_counts settings minheap maxheap r _⟩

end Calls

/-- In every state that is reached, with a released character, look-ahead agrees with reading if and only if the same character
stands at the index behind the last character and at the index of the first one. -/
theorem nextc_agrees_iff (settings : TtySettings) (minheap maxheap : Nat) {m : Machine tty}
    (r : Machine.Reach (fun m e => m.Lawful e) (ttyBoot settings minheap maxheap) m) (hrun : m.k.status = .running)
    (huser : userMode m.stack = true) {n : Int} (hcount : (m.k.semcount m.data.tyisem).2 = .ret n) (hpos : 0 < n) :
    LookAheadAgrees m ↔ m.data.SameAtTail :=
  (Machine.released_of_semcount settings minheap maxheap r hrun huser hcount hpos).agrees_iff

/-- User code runs, with two released characters, the first of which stands at the index behind the last one. -/
def Machine.twoReleased (m : Machine tty) : Bool :=
  decide (m.k.status = .running) && userMode m.stack && decide ((m.k.semcount m.data.tyisem).2 = .ret 2) &&
    decide (m.data.tyibuff m.data.tyitail = m.data.tyibuff m.data.tyihead)

/-- After a line that begins with a character 0 has arrived, look-ahead finds it. -/
theorem nextc_agrees_line :
    ∃ m, Machine.Reach (fun m e => m.Lawful e) (ttyBoot {} 4096 1048576) m ∧ (m.k.semcount m.data.tyisem).2 = .ret 2 ∧
      LookAheadAgrees m := by
  obtain ⟨m, r, hf⟩ := Machine.reach_of_evaluates Forcing.ttyMachine (fun m e => m.Lawful e) (ttyBoot {} 4096 1048576)
    [.op (.receive [0, 10]), .cont, .cont] Machine.twoReleased (by decide +kernel)
  simp only [Machine.twoReleased, Bool.and_eq_true, decide_eq_true_eq] at hf
  obtain ⟨⟨⟨hrun, huser⟩, hcount⟩, hbyte⟩ := hf
  exact ⟨m, r, hcount, (nextc_agrees_iff {} 4096 1048576 r hrun huser hcount (by decide)).mpr (.inr hbyte)⟩

/-- A line arrives. -/
def ttyLineArrives : List (Event tty) := [.op (.receive [104, 105, 10]), .cont, .cont]

/-- User code runs, with three released characters, and another character at the index behind the last one. -/
def Machine.threeReleased (m : Machine tty) : Bool :=
  decide (m.k.status = .running) && userMode m.stack && decide ((m.k.semcount m.data.tyisem).2 = .ret 3) &&
    decide (m.data.tyitail ≠ m.data.tyihead) &&
    decide (m.data.tyibuff m.data.tyitail ≠ m.data.tyibuff m.data.tyihead)

/-- The state after a line has arrived is reached. -/
theorem ttyLineArrives_reached :
    ∃ m, Machine.Reach (fun m e => m.Lawful e) (ttyBoot {} 4096 1048576) m ∧ m.k.status = .running ∧ userMode m.stack = true ∧
      (m.k.semcount m.data.tyisem).2 = .ret 3 ∧ ¬m.data.SameAtTail := by
  obtain ⟨m, r, hf⟩ := Machine.reach_of_evaluates Forcing.ttyMachine (fun m e => m.Lawful e) (ttyBoot {} 4096 1048576)
    ttyLineArrives Machine.threeReleased (by decide +kernel)
  simp only [Machine.threeReleased, Bool.and_eq_true, decide_eq_true_eq] at hf
  obtain ⟨⟨⟨⟨hrun, huser⟩, hcount⟩, htail⟩, hbyte⟩ := hf
  exact ⟨m, r, hrun, huser, hcount, fun h => h.elim htail hbyte⟩

/-- After a line has arrived, look-ahead does not find its first character. -/
theorem nextc_disagrees :
    ¬∀ (settings : TtySettings) (minheap maxheap : Nat) (m : Machine tty),
      Machine.Reach (fun m e => m.Lawful e) (ttyBoot settings minheap maxheap) m → m.k.status = .running →
      userMode m.stack = true → ∀ n, (m.k.semcount m.data.tyisem).2 = .ret n → 0 < n → LookAheadAgrees m := by
  intro hall
  obtain ⟨m, r, hrun, huser, hcount, hnot⟩ := ttyLineArrives_reached
  have R := Machine.released_of_semcount {} 4096 1048576 r hrun huser hcount (by decide)
  exact hnot (R.agrees_iff.mp (hall {} 4096 1048576 m r hrun huser 3 hcount (by decide)))

end Xinu
