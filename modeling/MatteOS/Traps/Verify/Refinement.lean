import MatteOS.Traps.Verify.Machine

/-!
# The machine and its steps from trap to trap

From user mode to user mode, the machine does what `Step` says of the hart: its clean runs are
those of the hart, cut at the call of `handle_interrupt` (`exists_run_of_machineRun`,
`exists_machineRun_of_run`).
-/

namespace MatteOS.Traps

open ByteMemory Processes Riscv TrapVector

/-- The trap without what surrounds its handling. -/
def UserTrap.trap (t : UserTrap) : Trap := ⟨t.context, t.memory, t.scause, t.stval⟩

section

variable {l : Layout} {sp : Spaces l} {m m₁ m' : Machine} {h : History} {t u : Task} {k : Kernel}
  {c : Cpu} {s : Surroundings} {trap : Trap}

theorem sret_hart (mode : (Machine.sret k u.trapFrame c).mode = .user u.trapFrame)
    (resumed : Resumed k.memory u.trapFrame sp.kernelSatp c) :
    (Machine.sret k u.trapFrame c).hart = resume k u.trapFrame sp.kernelSatp := by
  have memory : (Machine.sret k u.trapFrame c).kernel =
      { k with memory := store64 k.memory (TrapFrame.kernelSatp u.trapFrame) sp.kernelSatp } := by
    rw [← resumed.memory]
    rfl
  rw [Machine.hart, mode, memory]
  exact congrArg (Hart.mk _ _) resumed.satp

/-! ## Steps of the machine -/

/-- A C++ call can return. -/
theorem exists_returned (m : Machine) (k : Kernel) (result : Nat) : ∃ c, m.Returned k result c :=
  ⟨{ m.cpu with memory := k.memory, x := fun _ => .ofNat 64 result }, rfl, rfl, rfl⟩

/-- The machine can take a trap of the thread of `t`. -/
theorem exists_trap (inv : sp.Inv m h) (ht : t ∈ l.tasks) (user : m.mode = .user t.trapFrame)
    (occurs : m.Occurs l.kernelMemory trap) (s : Surroundings) :
    ∃ m₁, sp.Step m (.trap trap) m₁ ∧ m₁.mode = .handling ∧
      m₁.kernel = (trap.userTrap s).saved m.hart t.trapFrame ∧
      m₁.kernelTf = l.kernelTf ∧ m₁.argument = t.trapFrame ∧ m₁.cpu.csr .satp = sp.kernelSatp := by
  obtain ⟨c, ran, memory, space, argument, pointer, -⟩ := exists_entry inv ht user occurs
  obtain ⟨t', ht', eq, running⟩ := inv.user _ user
  obtain rfl := Layout.task_eq_of_trapFrame ht' ht eq
  refine ⟨_, .trap occurs ran, rfl, ?_, ?_, ?_, space⟩
  · simp only [Machine.kernel, UserTrap.saved, Machine.hart, memory, running.satp, Trap.userTrap]
  · rw [Machine.kernelTf, pointer, sp.toNat_kernelTf]
  · rw [Machine.argument, argument, sp.toNat_trapFrame ht]

/-- The machine can return to the thread of `u`. -/
theorem exists_handled {fuel : Nat} (handling : m.mode = .handling)
    (space : m.cpu.csr .satp = sp.kernelSatp)
    (result : handleInterrupt fuel m.kernelTf m.argument m.kernel s = some (u.trapFrame, k))
    (hu : u ∈ l.tasks) (mapped : sp.Mapped k.memory)
    (own : load64 k.memory (TrapFrame.kernelSatp u.trapFrame) = u.satp) :
    ∃ c, sp.Step m (.handled s) (Machine.sret k u.trapFrame c) ∧
      Resumed k.memory u.trapFrame sp.kernelSatp c := by
  obtain ⟨c, returned⟩ := exists_returned m k u.trapFrame
  obtain ⟨-, c', ran, resumed⟩ := exists_exit_of_returned mapped hu own space returned
  exact ⟨c', .handled handling result returned ran, resumed⟩

/-! ## From the machine to the hart -/

theorem step_of_start (inv : sp.Inv m h) (step : sp.Step m .start m') :
    Step l.kernelTf l.kernelMemory m.hart .start m'.hart := by
  obtain ⟨fuel, u, k, c, booting, space, scheduled, found, -, frames, resumed, rfl⟩ :=
    exists_of_start inv step
  rw [sret_hart (sret_mode (frames u found.mem).user resumed) resumed, ← space]
  exact .start (h := m.hart) (by rw [Event.Occurs, Machine.hart, booting]; rfl) scheduled

/-- What is known of a trap that the machine has taken from user mode. -/
theorem trap_facts (inv : sp.Inv m h) (fromUser : m.mode.thread ≠ none)
    (entered : sp.Step m (.trap trap) m₁) (s : Surroundings) :
    ∃ t ∈ l.tasks, m.mode = .user t.trapFrame ∧ m.Occurs l.kernelMemory trap ∧
      m₁.kernel = (trap.userTrap s).saved m.hart t.trapFrame ∧ m₁.argument = t.trapFrame ∧
      m₁.kernelTf = l.kernelTf ∧ m₁.mode = .handling ∧
      load64 trap.memory (TrapFrame.kernelSatp t.trapFrame) = sp.kernelSatp := by
  obtain ⟨tf, mode⟩ : ∃ tf, m.mode = .user tf := by
    cases eq : m.mode <;> simp [eq, Mode.thread] at fromUser ⊢
  obtain ⟨t, ht, rfl, running⟩ := inv.user tf mode
  cases entered with
  | @trap _ c occurs entered =>
    obtain ⟨c', ran, memory, -, argument, pointer, -⟩ := exists_entry inv ht mode occurs
    obtain rfl : c = c' := Option.some.inj (entered.symm.trans ran)
    have holds := (inv.frames t ht).congr
      (occurs.memory.mono fun x held => l.framesOwned t ht x (bytesAt_of_heldBytes held))
    refine ⟨t, ht, mode, occurs, ?_, ?_, ?_, rfl, ?_⟩
    · simp only [Machine.kernel, UserTrap.saved, Machine.hart, memory, running.satp, Trap.userTrap]
    · rw [Machine.argument, argument, sp.toNat_trapFrame ht]
    · rw [Machine.kernelTf, pointer, sp.toNat_kernelTf]
    · rw [holds.satp, Spaces.slot, if_pos mode]

/-- A trap of the machine and its handling are one step of the hart. -/
theorem step_of_trap_handled (inv : sp.Inv m h) (fromUser : m.mode.thread ≠ none)
    (entered : sp.Step m (.trap trap) m₁) (left : sp.Step m₁ (.handled s) m')
    (clean : l.CleanRead m₁.kernel m₁.argument s.answer) :
    l.CleanStep m.hart (.trap (trap.userTrap s)) m'.hart := by
  obtain ⟨t, ht, mode, occurs, kernel, tf, kernelTf, -, slot⟩ := trap_facts inv fromUser entered s
  have user : m.hart.current = some t.trapFrame := by rw [Machine.hart, mode]; rfl
  have inv₁ := inv_trap inv entered fromUser
  cases left with
  | @handled _ fuel next k c c' handling result returned ran =>
    obtain ⟨t', ht', running⟩ := inv₁.handling handling
    obtain ⟨made, after⟩ := running.handled inv₁ ht' handling clean result
    obtain ⟨u, hu, rfl, -⟩ := after.user _ rfl
    have frame := made.frames ht' hu (inv₁.held (by rw [handling]; rfl) hu)
    obtain ⟨-, c'', ran', resumed⟩ := exists_exit_of_returned (inv₁.mapped.change made ht') hu
      frame.satp running.satp returned
    obtain rfl : c' = c'' := Option.some.inj (ran.symm.trans ran')
    rw [kernelTf, tf, kernel] at result
    rw [kernel, tf] at clean
    rw [sret_hart (sret_mode frame.user resumed) resumed, ← slot]
    refine ⟨.trap (occurs_userTrap occurs fromUser s) user result, fun tf' user' => ?_⟩
    obtain rfl : t.trapFrame = tf' := Option.some.inj (user.symm.trans user')
    exact clean

/-- A step of the machine that is no trap ends outside of `handle_interrupt`. -/
theorem sret_ne_handling (k : Kernel) (tf : Nat) (c : Cpu) :
    (Machine.sret k tf c).mode ≠ .handling := by
  unfold Machine.sret
  split <;> simp

theorem modes_of_start (step : sp.Step m .start m') : m.mode = .booting ∧ m'.mode ≠ .handling := by
  cases step with
  | start booting => exact ⟨booting, sret_ne_handling _ _ _⟩

theorem modes_of_handled (step : sp.Step m (.handled s) m') :
    m.mode = .handling ∧ m'.mode ≠ .handling := by
  cases step with
  | handled handling => exact ⟨handling, sret_ne_handling _ _ _⟩

/-- **The machine does what the hart does**: a clean run of the machine between traps is one of the
hart. -/
theorem exists_run_of_machineRun {s s' : Machine × History} (inv : sp.Inv s.1 s.2)
    (between : s.1.mode ≠ .handling) (between' : s'.1.mode ≠ .handling) {es : List Machine.Event}
    (run : Transition.Run sp.CleanStep s es s') :
    ∃ events, Transition.Run l.CleanStep s.1.hart events s'.1.hart := by
  -- a trap and its handling go together, so the induction is on the length
  induction size : es.length using Nat.strong_induction_on generalizing s es with
  | _ n ih =>
    cases run with
    | nil => exact ⟨[], .nil _⟩
    | @cons _ s₁ _ e es head tail =>
      have inv₁ := inv_cleanStep inv head
      cases e with
      | start =>
        obtain ⟨events, rest⟩ := ih es.length (by simp [← size]) inv₁ (modes_of_start head.1.1).2
          tail rfl
        exact ⟨_, .cons ⟨step_of_start inv head.1.1, trivial⟩ rest⟩
      | handled surroundings => exact absurd (modes_of_handled head.1.1).1 between
      | trap trap =>
        obtain ⟨⟨entered, fromUser, -⟩, -⟩ := head
        obtain ⟨t, ht, -, -, -, -, -, handling, -⟩ :=
          trap_facts inv fromUser entered ⟨⟨none, .error [], false⟩, .none⟩
        cases tail with
        | nil => exact absurd handling between'
        | @cons _ s₂ _ e es head' tail' =>
          cases e with
          | start =>
            have booting := (modes_of_start head'.1.1).1
            rw [handling] at booting
            cases booting
          | trap => exact absurd (by rw [handling]; rfl) head'.1.2.1
          | handled surroundings =>
            have shorter : es.length < n := by
              rw [← size, List.length_cons, List.length_cons]
              omega
            obtain ⟨events, rest⟩ := ih es.length shorter
              (inv_cleanStep inv₁ head') (modes_of_handled head'.1.1).2 tail' rfl
            exact ⟨_, .cons (step_of_trap_handled inv fromUser entered head'.1.1 head'.2) rest⟩

/-! ## From the hart to the machine -/

variable {hart' : Hart} {trap' : UserTrap}

theorem exists_cleanStep_start (inv : sp.Inv m h) (first : m.hart.current = none)
    (between : m.mode ≠ .handling) (step : Step l.kernelTf l.kernelMemory m.hart .start hart') :
    ∃ s', sp.CleanStep (m, h) .start s' ∧ s'.1.hart = hart' ∧ s'.1.mode ≠ .handling := by
  have booting : m.mode = .booting := by
    cases eq : m.mode with
    | booting => rfl
    | user tf => simp [Machine.hart, eq, Mode.thread] at first
    | handling => exact absurd eq between
    | interrupted => exact absurd eq inv.uninterrupted
  obtain ⟨space, pointer, running⟩ := inv.booting booting
  cases step with
  | @start fuel tf k occurs scheduled =>
    obtain ⟨u, found, rfl⟩ := switched_of_scheduleFrame (k := m.kernel) inv.objects scheduled
    have hu := found.mem
    have made := @Switched.memoryChange l u u m.kernel k found
    have frame := made.frames hu hu (inv.held (by rw [booting]; rfl) hu)
    obtain ⟨c, returned⟩ := exists_returned m k u.trapFrame
    obtain ⟨⟨c', ran, resumed⟩, -⟩ := exists_exit_of_returned (inv.mapped.change made hu) hu
      frame.satp space returned
    have kernelTf : m.kernelTf = l.kernelTf := by
      rw [Machine.kernelTf, pointer, sp.toNat_kernelTf]
    have step : sp.Step m .start (Machine.sret k u.trapFrame c') :=
      .start booting (by rw [kernelTf]; exact scheduled) returned ran
    have clean : sp.CleanStep (m, h) .start (Machine.sret k u.trapFrame c',
        h.next m .start (Machine.sret k u.trapFrame c')) := ⟨⟨step, trivial, rfl⟩, trivial⟩
    have hart := sret_hart (sret_mode frame.user resumed) resumed
    exact ⟨_, clean, hart.trans (congrArg _ space.symm), (modes_of_start step).2⟩

theorem exists_cleanStep_trap (inv : sp.Inv m h)
    (step : l.CleanStep m.hart (.trap trap') hart') :
    ∃ s₁ s', sp.CleanStep (m, h) (.trap trap'.trap) s₁ ∧
      sp.CleanStep s₁ (.handled trap'.surroundings) s' ∧ s'.1.hart = hart' ∧
      s'.1.mode ≠ .handling := by
  obtain ⟨step, clean⟩ := step
  cases step with
  | @trap _ fuel tf next k occurs user handled =>
    obtain ⟨tf', mode⟩ : ∃ tf, m.mode = .user tf := by
      cases eq : m.mode <;> simp [Machine.hart, eq, Mode.thread] at user ⊢
    obtain rfl : tf' = tf := by
      rw [Machine.hart, mode] at user
      exact Option.some.inj user
    obtain ⟨t, ht, rfl, running⟩ := inv.user tf' mode
    have fromUser : m.mode.thread ≠ none := by rw [mode]; exact Option.some_ne_none _
    have taken : m.Occurs l.kernelMemory trap'.trap :=
      ⟨by rw [mode]; exact occurs.2.1, occurs.2.2.1, occurs.2.2.2⟩
    obtain ⟨m₁, entered, handling, kernel, kernelTf, tf, space⟩ :=
      exists_trap inv ht mode taken trap'.surroundings
    have inv₁ := inv_trap inv entered fromUser
    have clean₁ : l.CleanRead m₁.kernel m₁.argument trap'.surroundings.answer := by
      rw [kernel, tf]
      exact clean _ user
    have result : handleInterrupt fuel m₁.kernelTf m₁.argument m₁.kernel trap'.surroundings =
        some (next, k) := by
      rw [kernelTf, tf, kernel]
      exact handled
    obtain ⟨t', ht', running₁⟩ := inv₁.handling handling
    obtain ⟨made, after⟩ := running₁.handled inv₁ ht' handling clean₁ result
    obtain ⟨u, hu, rfl, -⟩ := after.user _ rfl
    have frame := made.frames ht' hu (inv₁.held (by rw [handling]; rfl) hu)
    obtain ⟨c, left, resumed⟩ := exists_handled handling space result hu
      (inv₁.mapped.change made ht') frame.satp
    have resuming : sp.CleanStep (m₁, h.next m (.trap trap'.trap) m₁) (.handled trap'.surroundings)
        (Machine.sret k u.trapFrame c, (h.next m (.trap trap'.trap) m₁).next m₁
          (.handled trap'.surroundings) (Machine.sret k u.trapFrame c)) :=
      ⟨⟨left, trivial, rfl⟩, clean₁⟩
    obtain ⟨w, hw, mode', -, -, -, -, -, slot⟩ := trap_facts inv fromUser entered trap'.surroundings
    rw [mode] at mode'
    have hart := sret_hart (sret_mode frame.user resumed) resumed
    rw [← slot, ← Mode.user.inj mode'] at hart
    exact ⟨(m₁, _), _, ⟨⟨entered, fromUser, rfl⟩, trivial⟩, resuming, hart, (modes_of_handled left).2⟩

/-- **The hart does what the machine does**: each clean run of the hart is one of the machine
between traps. -/
theorem exists_machineRun_of_run {hart : Hart} (inv : sp.Inv m h) (between : m.mode ≠ .handling)
    {events : List Event} (run : Transition.Run l.CleanStep m.hart events hart) :
    ∃ es s', Transition.Run sp.CleanStep (m, h) es s' ∧ s'.1.hart = hart ∧
      s'.1.mode ≠ .handling := by
  induction events generalizing m h with
  | nil =>
    cases run
    exact ⟨[], (m, h), .nil _, rfl, between⟩
  | cons e events ih =>
    cases run with
    | @cons _ hart₁ _ _ _ head tail =>
      cases e with
      | start =>
        have first : m.hart.current = none := by
          cases head.1 with
          | start occurs => exact occurs
        obtain ⟨s₁, step, rfl, between₁⟩ := exists_cleanStep_start inv first between head.1
        obtain ⟨es, s', rest, same, between'⟩ := ih (inv_cleanStep inv step) between₁ tail
        exact ⟨_, s', .cons step rest, same, between'⟩
      | trap trap' =>
        obtain ⟨s₁, s₂, entered, left, rfl, between₂⟩ := exists_cleanStep_trap inv head
        have inv₂ := inv_cleanStep (inv_cleanStep (s := (m, h)) inv entered) left
        obtain ⟨es, s', rest, same, between'⟩ := ih inv₂ between₂ tail
        exact ⟨_, s', .cons entered (.cons left rest), same, between'⟩

end

end MatteOS.Traps
