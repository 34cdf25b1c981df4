import Ztyco.ContextSwitch

/-!
How fibers end. A fiber is entered by a primitive that saves the thread's
context in one of two places, and it ends through a primitive that restores one
of the two. On every thread the fibers are nested: the main fiber, on the
caller thread the root fiber in it, and in the scheduler's fiber a made one;
the context of each fiber that waits is the place where it entered the next.
-/

namespace Ztyco.ContextSwitch

open Transition

/-- The fiber ended through the primitive that belongs to the one it was entered
through, and the thread goes on where it entered the fiber. -/
def Returned (out : Exit) : Prop :=
  ∃ entry, out.entry = some entry ∧ entry.fiber = out.fiber ∧ out.now = entry.back ∧
    match entry.primitive with
    | .resume => out.primitive = .yield ∧ out.restored = t_threadFiber out.thread
    | .swapIn => out.primitive = .swapOut ∧ out.restored = t_scheduler_fiber out.thread
    | .yield | .swapOut => False

structure ExitsReturn (proc : Process) : Prop where
  apart : ∀ save restore, (save, restore) ∈ proc.switches → save ≠ restore
  returned : ∀ out ∈ proc.exits, Returned out
  stopped : ∀ out ∈ proc.exits, out.fiber = .root →
    out.now.fiber = .main m_rootThreadid ∧ out.now.site = .after .resume

/-- A fiber that ends does so with the function that fits the way it is entered:
`CallerMainFunc` for the root fiber, `MainFunc` for those `run` swaps in. -/
def FitsEntry (proc : Process) : Act → Prop
  | .finish thread _ => match (proc.running thread).fiber with
    | .root => (proc.running thread).func = .CallerMainFunc
    | .made _ => (proc.running thread).func = .MainFunc
    | .main _ => True
  | _ => True

instance FitsEntry.decidable (proc : Process) : (act : Act) → Decidable (FitsEntry proc act)
  | .finish thread _ =>
      match fiber : (proc.running thread).fiber with
      | .root => decidable_of_iff ((proc.running thread).func = .CallerMainFunc) (by
          simp only [FitsEntry, fiber])
      | .made _ => decidable_of_iff ((proc.running thread).func = .MainFunc) (by
          simp only [FitsEntry, fiber])
      | .main _ => .isTrue (by simp only [FitsEntry, fiber])
  | .stop _ | .take .. | .resetFunc .. | .hold .. | .yieldTo .. | .swapOut _ => .isTrue trivial

/-- The fibers that are running on a thread, the innermost first. -/
inductive Nested (m_ctx : FiberName → Point) (thread : ThreadId) :
    FiberName → List Entry → Prop where
  | main : Nested m_ctx thread (.main thread) []
  | root : thread = m_rootThreadid → (m_ctx (.main thread)).site = .after .resume →
      Nested m_ctx thread .root [⟨.root, .resume, m_ctx (.main thread)⟩]
  | made (n : Nat) {rest : List Entry} : Nested m_ctx thread (t_scheduler_fiber thread) rest →
      Nested m_ctx thread (.made n)
        (⟨.made n, .swapIn, m_ctx (t_scheduler_fiber thread)⟩ :: rest)

theorem scheduler_cases (thread : ThreadId) :
    t_scheduler_fiber thread = .main thread ∨
      thread = m_rootThreadid ∧ t_scheduler_fiber thread = .root := by
  unfold t_scheduler_fiber
  split
  · rename_i caller
    exact Or.inr ⟨caller, rfl⟩
  · exact Or.inl rfl

theorem scheduler_ne_made (thread : ThreadId) (n : Nat) : t_scheduler_fiber thread ≠ .made n := by
  intro same
  rcases scheduler_cases thread with main | ⟨_, root⟩
  · rw [main] at same
    cases same
  · rw [root] at same
    cases same

section Nesting
variable {m_ctx other : FiberName → Point} {thread : ThreadId} {fiber : FiberName}
  {entries : List Entry}

theorem Nested.frame (nested : Nested m_ctx thread fiber entries)
    (main : other (.main thread) = m_ctx (.main thread))
    (scheduler : other (t_scheduler_fiber thread) = m_ctx (t_scheduler_fiber thread)) :
    Nested other thread fiber entries := by
  induction nested with
  | main => exact .main
  | root caller site =>
      rw [← main] at site ⊢
      exact .root caller site
  | made n _ ih =>
      rw [← scheduler]
      exact .made n ih

/-- Nor does the context of the innermost fiber: it is not waiting. -/
theorem Nested.save (nested : Nested m_ctx thread fiber entries) (point : Point) :
    Nested (Function.update m_ctx fiber point) thread fiber entries := by
  cases nested with
  | main => exact .main
  | root caller site =>
      have kept : Function.update m_ctx .root point (.main thread) = m_ctx (.main thread) := by
        apply Function.update_of_ne
        intro same
        cases same
      rw [← kept] at site ⊢
      exact .root caller site
  | made n inner =>
      have kept : ∀ f, (∀ k, f ≠ FiberName.made k) →
          Function.update m_ctx (.made n) point f = m_ctx f := fun f apart =>
        Function.update_of_ne (apart n) _ _
      rw [← kept _ (scheduler_ne_made thread)]
      exact .made n (inner.frame (kept _ (fun k same => by cases same))
        (kept _ (scheduler_ne_made thread)))

/-! What is running around each kind of fiber. -/

theorem Nested.of_main {owner : ThreadId} (nested : Nested m_ctx thread (.main owner) entries) :
    entries = [] := by
  cases nested
  rfl

theorem Nested.of_root (nested : Nested m_ctx thread .root entries) :
    thread = m_rootThreadid ∧ (m_ctx (.main thread)).site = .after .resume ∧
      entries = [⟨.root, .resume, m_ctx (.main thread)⟩] := by
  cases nested with
  | root caller site => exact ⟨caller, site, rfl⟩

theorem Nested.of_made {n : Nat} (nested : Nested m_ctx thread (.made n) entries) :
    ∃ rest, entries = ⟨.made n, .swapIn, m_ctx (t_scheduler_fiber thread)⟩ :: rest ∧
      Nested m_ctx thread (t_scheduler_fiber thread) rest := by
  cases nested with
  | made _ inner => exact ⟨_, rfl, inner⟩

end Nesting

structure Sound (proc : Process) : Prop where
  own : ∀ fiber, (proc.m_ctx fiber).fiber = fiber
  current : ∀ thread, proc.t_fiber thread = (proc.running thread).fiber
  nested : ∀ thread,
    Nested proc.m_ctx thread (proc.running thread).fiber (proc.entries thread)
  good : ExitsReturn proc

theorem sound_constructed (use_caller : Nat → Bool) : Sound (.constructed use_caller) := by
  constructor
  · intro fiber
    cases fiber <;> rfl
  · intro thread
    rfl
  · intro thread
    exact .main
  · constructor
    · intro save restore mem
      cases mem
    · intro out mem
      cases mem
    · intro out mem
      cases mem

/-- The fibers that run on a thread are not those that wait on another one. -/
theorem Nested.elsewhere {m_ctx : FiberName → Point} {thread other : ThreadId}
    {fiber : FiberName} {entries : List Entry} (nested : Nested m_ctx thread fiber entries)
    (apart : other ≠ thread) : FiberName.main other ≠ fiber ∧ t_scheduler_fiber other ≠ fiber := by
  cases nested with
  | main =>
      constructor
      · intro same
        cases same
        exact apart rfl
      · intro same
        rcases scheduler_cases other with main | ⟨_, root⟩
        · rw [main] at same
          cases same
          exact apart rfl
        · rw [root] at same
          cases same
  | root caller _ =>
      constructor
      · intro same
        cases same
      · intro same
        rcases scheduler_cases other with main | ⟨also, _⟩
        · rw [main] at same
          cases same
        · exact apart (also.trans caller.symm)
  | made n _ =>
      constructor
      · intro same
        cases same
      · exact scheduler_ne_made other n

section Switches
variable {proc : Process} {thread : ThreadId}

/-- A switch to another context: the saved one is the running one, and the
thread goes on where the restored one was saved. -/
theorem sound_switch (sound : Sound proc) (primitive : Primitive) {restore : FiberName}
    (apart : (proc.running thread).fiber ≠ restore) {after : Process}
    (m_ctx : after.m_ctx = Function.update proc.m_ctx (proc.running thread).fiber
      ⟨(proc.running thread).fiber, .after primitive, (proc.running thread).func⟩)
    (running : after.running = Function.update proc.running thread (after.m_ctx restore))
    (t_fiber : after.t_fiber = Function.update proc.t_fiber thread restore)
    (others : ∀ other, other ≠ thread → after.entries other = proc.entries other)
    (inner : Nested after.m_ctx thread restore (after.entries thread))
    (switches : after.switches = proc.switches ++ [((proc.running thread).fiber, restore)])
    (returned : ∀ out ∈ after.exits, Returned out)
    (stopped : ∀ out ∈ after.exits, out.fiber = .root →
      out.now.fiber = .main m_rootThreadid ∧ out.now.site = .after .resume) : Sound after := by
  have own : ∀ fiber, (after.m_ctx fiber).fiber = fiber := by
    intro fiber
    rw [m_ctx]
    by_cases same : fiber = (proc.running thread).fiber
    · rw [same, Function.update_self]
    · rw [Function.update_of_ne same]
      exact sound.own fiber
  have here : (after.running thread).fiber = restore := by
    rw [running, Function.update_self]
    exact own restore
  constructor
  · exact own
  · intro other
    by_cases same : other = thread
    · subst same
      rw [here, t_fiber, Function.update_self]
    · rw [t_fiber, running, Function.update_of_ne same, Function.update_of_ne same]
      exact sound.current other
  · intro other
    by_cases same : other = thread
    · subst same
      rw [here]
      exact inner
    · rcases (sound.nested thread).elsewhere same with ⟨main, scheduler⟩
      rw [running, Function.update_of_ne same, others other same, m_ctx]
      exact (sound.nested other).frame (Function.update_of_ne main _ _)
        (Function.update_of_ne scheduler _ _)
  · refine ⟨?_, returned, stopped⟩
    intro save back mem
    rw [switches, List.mem_append] at mem
    rcases mem with old | new
    · exact sound.good.apart save back old
    · cases List.mem_singleton.mp new
      exact apart

theorem sound_stop {after : Process} (sound : Sound proc)
    (stopped : proc.stop thread = some after) : Sound after := by
  unfold Process.stop at stopped
  split at stopped
  · rename_i able
    cases stopped
    rcases able with ⟨caller, main, _⟩
    have outer := sound.nested thread
    rw [main] at outer
    have apart : (proc.running thread).fiber ≠ .root := by
      rw [main]
      intro same
      cases same
    refine sound_switch sound .resume apart ?_ rfl rfl ?_ ?_ ?_ sound.good.returned
      sound.good.stopped
    · rw [main]
      simp only [Process.resume, Process.swapcontext, Process.setState, Process.SetThis,
        Process.enter, main, t_threadFiber]
    · intro other same
      exact Function.update_of_ne same _ _
    · have entered := outer.of_main
      have waiting : (proc.resume thread .root).m_ctx (.main thread) =
          ⟨.main thread, .after .resume, (proc.running thread).func⟩ := by
        simp [Process.resume, Process.swapcontext, Process.setState, Process.SetThis,
          Process.enter, main, t_threadFiber]
      have entries : (proc.resume thread .root).entries thread =
          [⟨.root, .resume, (proc.resume thread .root).m_ctx (.main thread)⟩] := by
        rw [waiting]
        simp [Process.resume, Process.swapcontext, Process.setState, Process.SetThis,
          Process.enter, main, entered]
      rw [entries]
      exact .root caller (by rw [waiting])
    · rw [main]
      rfl
  · cases stopped

theorem sound_take {after : Process} {n : Nat} (sound : Sound proc)
    (taken : proc.take thread (.made n) = some after) : Sound after := by
  unfold Process.take Process.swapIn at taken
  split at taken
  · rename_i able
    split at taken
    · cases taken
    · cases taken
      rcases able with ⟨scheduler, _⟩
      have outer := sound.nested thread
      rw [scheduler] at outer
      have apart : (proc.running thread).fiber ≠ .made n := by
        rw [scheduler]
        exact scheduler_ne_made thread n
      refine sound_switch sound .swapIn apart ?_ rfl rfl ?_ ?_ ?_ sound.good.returned
        sound.good.stopped
      · simp only [Process.swapcontext, Process.setState, Process.SetThis, Process.enter, scheduler]
      · intro other same
        exact Function.update_of_ne same _ _
      · have inner := Nested.made n (outer.save
          ⟨t_scheduler_fiber thread, .after .swapIn, (proc.running thread).func⟩)
        simpa [Process.swapcontext, Process.setState, Process.SetThis, Process.enter, scheduler]
          using inner
      · rw [scheduler]
        rfl
  · cases taken

theorem Sound.frame {after : Process} (sound : Sound proc)
    (own : ∀ fiber, (after.m_ctx fiber).fiber = fiber)
    (m_ctx : ∀ fiber, (∀ n, fiber ≠ .made n) → after.m_ctx fiber = proc.m_ctx fiber)
    (t_fiber : after.t_fiber = proc.t_fiber) (running : after.running = proc.running)
    (entries : after.entries = proc.entries) (switches : after.switches = proc.switches)
    (exits : after.exits = proc.exits) : Sound after := by
  constructor
  · exact own
  · intro other
    rw [t_fiber, running]
    exact sound.current other
  · intro other
    rw [running, entries]
    apply (sound.nested other).frame
    · apply m_ctx
      intro n same
      cases same
    · exact m_ctx _ (scheduler_ne_made other)
  · constructor
    · rw [switches]
      exact sound.good.apart
    · rw [exits]
      exact sound.good.returned
    · rw [exits]
      exact sound.good.stopped

theorem sound_resetFunc {after : Process} {n : Nat} (sound : Sound proc)
    (reset : proc.resetFunc thread (.made n) = some after) : Sound after := by
  unfold Process.resetFunc at reset
  split at reset
  · cases reset
    refine sound.frame ?_ ?_ rfl rfl rfl rfl rfl
    · intro fiber
      by_cases same : fiber = .made n
      · subst same
        simp [makecontext]
      · simpa [same] using sound.own fiber
    · intro fiber apart
      exact Function.update_of_ne (apart n) _ _
  · cases reset

theorem sound_hold {after : Process} {n : Nat} (sound : Sound proc)
    (held : proc.hold thread (.made n) = some after) : Sound after := by
  unfold Process.hold at held
  split at held
  · cases held
    exact sound.frame sound.own (fun _ _ => rfl) rfl rfl rfl rfl rfl
  · cases held

theorem sound_yieldTo {after : Process} {ready : Bool} (sound : Sound proc)
    (yielded : proc.yieldTo thread ready = some after) : Sound after := by
  unfold Process.yieldTo at yielded
  simp only at yielded
  split at yielded
  · cases yielded
    exact sound.frame sound.own (fun _ _ => rfl) rfl rfl rfl rfl rfl
  · cases yielded

theorem made_of_runsTask {fiber : FiberName} (task : fiber.runsTask = true) :
    ∃ n, fiber = .made n := by
  cases fiber with
  | main thread => cases task
  | root => cases task
  | made n => exact ⟨n, rfl⟩

/-- Leaving the innermost fiber goes back to where it was entered. -/
theorem sound_swapOut {n : Nat} (sound : Sound proc)
    (made : (proc.running thread).fiber = .made n) :
    Sound (proc.swapOut thread (.made n)) ∧
      (proc.swapOut thread (.made n)).running thread = proc.m_ctx (t_scheduler_fiber thread) := by
  have inside := sound.nested thread
  rw [made] at inside
  rcases inside.of_made with ⟨rest, entries, outer⟩
  have scheduler := scheduler_ne_made thread n
  have main : FiberName.main thread ≠ .made n := by
    intro same
    cases same
  constructor
  · refine sound_switch sound .swapOut (made ▸ Ne.symm scheduler) ?_ rfl rfl ?_ ?_ ?_
      sound.good.returned sound.good.stopped
    · rw [made]
      simp only [Process.swapOut, Process.swapcontext, Process.SetThis, Process.leave, made]
    · intro other same
      exact Function.update_of_ne same _ _
    · have tail : (proc.swapOut thread (.made n)).entries thread = rest := by
        simp [Process.swapOut, Process.swapcontext, Process.SetThis, Process.leave, entries]
      rw [tail]
      apply outer.frame
      · simp [Process.swapOut, Process.swapcontext, Process.SetThis, Process.leave, main]
      · simp [Process.swapOut, Process.swapcontext, Process.SetThis, Process.leave, scheduler]
    · rw [made]
      rfl
  · simp [Process.swapOut, Process.swapcontext, Process.SetThis, Process.leave, scheduler]

theorem sound_yield (sound : Sound proc) (root : (proc.running thread).fiber = .root) :
    Sound (proc.yield thread .root) ∧
      (proc.yield thread .root).running thread = proc.m_ctx (.main thread) := by
  have inside := sound.nested thread
  rw [root] at inside
  rcases inside.of_root with ⟨caller, site, entries⟩
  have main : FiberName.main thread ≠ .root := by
    intro same
    cases same
  constructor
  · refine sound_switch sound .yield (root ▸ Ne.symm main) ?_ rfl rfl ?_ ?_ ?_
      sound.good.returned sound.good.stopped
    · rw [root]
      simp only [Process.yield, Process.swapcontext, Process.SetThis, Process.leave, root]
    · intro other same
      exact Function.update_of_ne same _ _
    · have tail : (proc.yield thread .root).entries thread = [] := by
        simp [Process.yield, Process.swapcontext, Process.SetThis, Process.leave, entries]
      rw [tail]
      exact .main
    · rw [root]
      rfl
  · simp [Process.yield, Process.swapcontext, Process.SetThis, Process.leave, t_threadFiber]

theorem sound_yieldOut {after : Process} (sound : Sound proc)
    (out : proc.yieldOut thread = some after) : Sound after := by
  unfold Process.yieldOut at out
  split at out
  · rename_i able
    cases out
    rcases made_of_runsTask able.1 with ⟨n, made⟩
    have same : Sound { proc with yielding := Function.update proc.yielding thread false } :=
      sound.frame sound.own (fun _ _ => rfl) rfl rfl rfl rfl rfl
    rw [sound.current thread, made]
    exact (sound_swapOut same made).1
  · cases out

theorem Sound.exit (sound : Sound proc) (out : Exit) (ended : ThreadId → Bool)
    (returned : Returned out)
    (stopped : out.fiber = .root →
      out.now.fiber = .main m_rootThreadid ∧ out.now.site = .after .resume) :
    Sound { proc with ended := ended, exits := proc.exits ++ [out] } := by
  refine ⟨sound.own, sound.current, sound.nested, sound.good.apart, ?_, ?_⟩
  · intro other mem
    rcases List.mem_append.mp mem with old | new
    · exact sound.good.returned other old
    · cases List.mem_singleton.mp new
      exact returned
  · intro other mem
    rcases List.mem_append.mp mem with old | new
    · exact sound.good.stopped other old
    · cases List.mem_singleton.mp new
      exact stopped

theorem sound_finish (sound : Sound proc) (threw : Bool)
    (stack : (proc.running thread).fiber.hasStack = true)
    (fits : FitsEntry proc (.finish thread threw)) : Sound (proc.finish thread threw) := by
  have inside := sound.nested thread
  have called : ∀ fiber state, Sound (proc.setState fiber state) := fun _ _ =>
    sound.frame sound.own (fun _ _ => rfl) rfl rfl rfl rfl rfl
  cases fiber : (proc.running thread).fiber with
  | main other =>
      rw [fiber] at stack
      cases stack
  | root =>
      have func : (proc.running thread).func = .CallerMainFunc := by
        simpa only [FitsEntry, fiber] using fits
      rw [fiber] at inside
      rcases inside.of_root with ⟨caller, site, entries⟩
      rcases sound_yield (called .root (if threw then .except else .term)) fiber with ⟨left, back⟩
      simp only [Process.finish, func, fiber]
      apply left.exit
      · rw [back, entries]
        exact ⟨_, rfl, rfl, rfl, rfl, rfl⟩
      · intro _
        rw [back]
        subst caller
        exact ⟨sound.own _, site⟩
  | made n =>
      have func : (proc.running thread).func = .MainFunc := by
        simpa only [FitsEntry, fiber] using fits
      rw [fiber] at inside
      rcases inside.of_made with ⟨rest, entries, _⟩
      rcases sound_swapOut (called (.made n) (if threw then .except else .term)) fiber with
        ⟨left, back⟩
      simp only [Process.finish, func, fiber]
      apply left.exit
      · rw [back, entries]
        exact ⟨_, rfl, rfl, rfl, rfl, rfl⟩
      · intro root
        cases root

end Switches

theorem reach_sound {proc : Process} (reached : Reach switching FitsEntry proc) : Sound proc := by
  apply reached.invariant Sound
  · rintro state ⟨use_caller, rfl⟩
    exact sound_constructed use_caller
  · intro before act after _ sound fits moved
    simp only [switching, Process.act] at moved
    split at moved
    · cases moved
    · cases act with
      | stop thread => exact sound_stop sound moved
      | take thread n => exact sound_take sound moved
      | resetFunc thread n => exact sound_resetFunc sound moved
      | hold thread n => exact sound_hold sound moved
      | yieldTo thread ready => exact sound_yieldTo sound moved
      | swapOut thread => exact sound_yieldOut sound moved
      | finish thread threw =>
          simp only at moved
          split at moved
          · rename_i able
            cases moved
            exact sound_finish sound threw able.1 fits
          · cases moved

/-- In a run in which every fiber that ends has the function that fits the way
it was entered, every exit returns to the context that entered the fiber. -/
theorem exits_return {proc : Process} (reached : Reach switching FitsEntry proc) :
    ExitsReturn proc :=
  (reach_sound reached).good

theorem exits_return_run :
    ∃ proc, run switching (.constructed fun _ => false)
        [.stop 0, .take 0 1, .take 1 2, .yieldTo 0 false, .swapOut 0, .finish 1 false, .take 1 1,
          .finish 1 true, .resetFunc 1 1, .take 1 1] = some proc ∧ ExitsReturn proc :=
  run_meets FitsEntry ⟨_, rfl⟩ (by decide) (by decide) fun _ reached => exits_return reached

/-- `run` ends on the caller thread. -/
theorem root_exit_returns_nowhere :
    ¬ ∀ proc : Process, Reach switching anyStep proc → ExitsReturn proc := by
  intro all
  rcases reach_where switching anyStep (.constructed fun _ => false) [.stop 0, .finish 0 false]
      (fun proc => decide ((FiberName.root, FiberName.root) ∈ proc.switches))
      ⟨_, rfl⟩ (by decide) (by decide) with ⟨proc, reached, same⟩
  exact (all proc reached).apart .root .root (of_decide_eq_true same) rfl

end Ztyco.ContextSwitch
