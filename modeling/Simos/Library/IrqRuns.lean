import Simos.Library.IrqRoutines

/-!
# Runs of routines with an interrupt flag

When a program is `Checked`, its routines meet their contracts in every run,
whatever other threads and trap handlers do between two statements.

* `Ready` says that a thread can go on with this flag, and `Ok` is the
  invariant;
* `Ok.step` is the step lemma;
* `HasCall` follows a call through the layers that come and go above it;
* `switch_off` and `return_meets` are the results.
-/

namespace Simos.Library.IrqRoutines

/-! ## The invariant -/

structure Known.Fits (known : Known) (flag eax status : Bool) : Prop where
  flag : known.flag = flag
  eax : ∀ value, known.eax = some value → eax = value
  status : ∀ value, known.status = some value → status = value

structure Known.Weaker (known weaker : Known) : Prop where
  flag : weaker.flag = known.flag
  eax : ∀ value, weaker.eax = some value → known.eax = some value
  status : ∀ value, weaker.status = some value → known.status = some value

section Invariant

variable {Routine Effect Test Data : Type} {contract : Contract Routine}
  {promise : Promise}

/-- The code that is left of a routine keeps the promise; between two parts
some of what is known may be dropped. -/
def FlowAll (contract : Contract Routine) (promise : Promise) :
    List (Code Routine Effect Test) → Known → Prop
  | [], known => promise.Kept known
  | code :: rest, known =>
      ∃ after, flow contract promise code known = some after ∧
        ∀ reached, after = some reached → ∃ weaker, reached.Weaker weaker ∧
          FlowAll contract promise rest weaker

/-- The layers can go on with this flag and this `eax`. -/
def Ready (contract : Contract Routine) (flag eax : Bool) :
    List (Layer Routine Effect Test) → Prop
  | [] => True
  | .handler flag eax :: below => Ready contract flag eax below
  | .routine frame :: below =>
      ∃ known promise argument, Known.Fits known flag eax frame.status ∧
        contract frame.routine argument frame.entry = some promise ∧
        FlowAll contract promise frame.work known ∧
        ∀ result, (∀ value, promise.eax = some value → result = value) →
          Ready contract promise.flag result below

structure Ok (contract : Contract Routine)
    (s : State Routine Effect Test Data) : Prop where
  running : Ready contract s.core.flag s.core.eax (s.layers s.current)
  waiting : ∀ thread, thread ≠ s.current →
    ∀ eax, Ready contract false eax (s.layers thread)

/-! ## What is known -/

private theorem Known.Weaker.refl (known : Known) : known.Weaker known :=
  ⟨rfl, fun _ same => same, fun _ same => same⟩

private theorem Known.Fits.weaken {known weaker : Known}
    {flag eax status : Bool}
    (fits : known.Fits flag eax status) (less : known.Weaker weaker) :
    weaker.Fits flag eax status where
  flag := less.flag.trans fits.flag
  eax value same := fits.eax value (less.eax value same)
  status value same := fits.status value (less.status value same)

private theorem Known.Fits.forgetEax {known : Known} {flag eax status : Bool}
    (fits : known.Fits flag eax status) (noise : Bool) :
    ({ known with eax := none } : Known).Fits flag noise status where
  flag := fits.flag
  eax value impossible := by cases impossible
  status := fits.status

private theorem common_eq_some {left right : Option Bool} {value : Bool}
    (equal : common left right = some value) :
    left = some value ∧ right = some value := by
  unfold common at equal
  split at equal
  next same => exact ⟨equal, same ▸ equal⟩
  next => cases equal

/-- Where two branches meet, not more is known than on either side. -/
theorem join_weaker {left right after : Option Known}
    (joined : join left right = some after) {known : Known}
    (side : left = some known ∨ right = some known) :
    ∃ reached, after = some reached ∧ known.Weaker reached := by
  cases left with
  | none =>
      have isRight : right = some known := by simpa using side
      rw [isRight, join, Option.some.injEq] at joined
      exact ⟨known, joined.symm, .refl known⟩
  | some left =>
      cases right with
      | none =>
          have isLeft : left = known := by simpa using side
          rw [isLeft, join, Option.some.injEq] at joined
          · exact ⟨known, joined.symm, .refl known⟩
          · simp
      | some right =>
          rw [join, Option.ite_none_right_eq_some, Option.some.injEq] at joined
          obtain ⟨sameFlag, rfl⟩ := joined
          refine ⟨_, rfl, ?_⟩
          rcases side with isLeft | isRight
          · obtain rfl := Option.some.inj isLeft
            exact ⟨rfl, fun _ same => (common_eq_some same).1,
              fun _ same => (common_eq_some same).1⟩
          · obtain rfl := Option.some.inj isRight
            exact ⟨sameFlag, fun _ same => (common_eq_some same).2,
              fun _ same => (common_eq_some same).2⟩

private theorem FlowAll.of_flow {code : Code Routine Effect Test}
    {rest : List (Code Routine Effect Test)} {known : Known}
    {after : Option Known}
    (computed : flow contract promise code known = some after)
    (later : ∀ reached, after = some reached →
      FlowAll contract promise rest reached) :
    FlowAll contract promise (code :: rest) known :=
  ⟨after, computed, fun reached same =>
    ⟨reached, .refl reached, later reached same⟩⟩

private theorem Checked.flowAll {program : Program Routine Effect Test}
    (checked : Checked program contract) {routine : Routine}
    {argument : Option Bool} {entry : Bool}
    (promised : contract routine argument entry = some promise) :
    FlowAll contract promise [program.code routine]
      ⟨entry, none, argument⟩ := by
  have keeps := checked.keeps routine argument entry promise promised
  unfold keepsPromise at keeps
  cases computed : flow contract promise (program.code routine)
      ⟨entry, none, argument⟩ with
  | none => simp [computed] at keeps
  | some after =>
      apply FlowAll.of_flow computed
      rintro reached rfl
      have kept : promise.Kept reached := by
        simpa [computed] using keeps
      exact kept

/-! ## Steps -/

theorem FlowAll.of_branch {code next : Code Routine Effect Test}
    {rest : List (Code Routine Effect Test)} {known : Known}
    {branch met after : Option Known}
    (computed : flow contract promise code known = some branch)
    (meets : ∀ reached, branch = some reached →
      ∃ weaker, met = some weaker ∧ reached.Weaker weaker)
    (onward : met.elim (some none) (flow contract promise next) = some after)
    (later : ∀ reached, after = some reached → ∃ weaker,
      reached.Weaker weaker ∧ FlowAll contract promise rest weaker) :
    FlowAll contract promise (code :: next :: rest) known := by
  refine ⟨branch, computed, ?_⟩
  intro reached ends
  obtain ⟨weaker, rfl, less⟩ := meets reached ends
  exact ⟨weaker, less, after, onward, later⟩

theorem statement_frame {meaning : Meaning Effect Test Data}
    {thread : Nat} {noise : Bool} {core core' : Core Data}
    {frame frame' : Frame Routine Effect Test}
    (taken : statement meaning thread noise core frame =
      some (core', frame')) :
    frame'.routine = frame.routine ∧ frame'.entry = frame.entry := by
  obtain ⟨routine, entry, status, work⟩ := frame
  cases work with
  | nil => cases taken
  | cons code rest =>
      cases code with
      | act effect next =>
          obtain ⟨data, -, same⟩ := Option.map_eq_some_iff.mp taken
          obtain ⟨-, rfl⟩ := Prod.mk.inj same
          exact ⟨rfl, rfl⟩
      | expectOff next =>
          simp only [statement, Option.ite_none_left_eq_some] at taken
          obtain ⟨-, rfl⟩ := Prod.mk.inj (Option.some.inj taken.2)
          exact ⟨rfl, rfl⟩
      | call | switch | ret => cases taken
      | _ =>
          obtain ⟨-, rfl⟩ := Prod.mk.inj (Option.some.inj taken)
          exact ⟨rfl, rfl⟩

theorem statement_follows {meaning : Meaning Effect Test Data}
    {thread : Nat} {noise : Bool} {core core' : Core Data}
    {frame frame' : Frame Routine Effect Test} {known : Known}
    (fits : known.Fits core.flag core.eax frame.status)
    (follows : FlowAll contract promise frame.work known)
    (taken : statement meaning thread noise core frame =
      some (core', frame')) :
    ∃ known' : Known, known'.Fits core'.flag core'.eax frame'.status ∧
      FlowAll contract promise frame'.work known' := by
  obtain ⟨routine, entry, status, work⟩ := frame
  cases work with
  | nil => cases taken
  | cons code rest =>
      obtain ⟨after, computed, later⟩ := follows
      cases code with
      | done =>
          obtain ⟨rfl, rfl⟩ := Prod.mk.inj (Option.some.inj taken)
          obtain ⟨weaker, less, rest⟩ :=
            later known (Option.some.inj computed).symm
          exact ⟨weaker, fits.weaken less, rest⟩
      | act effect next =>
          obtain ⟨data, -, same⟩ := Option.map_eq_some_iff.mp taken
          obtain ⟨rfl, rfl⟩ := Prod.mk.inj same
          exact ⟨_, fits.forgetEax noise, after, computed, later⟩
      | getFlag next =>
          obtain ⟨rfl, rfl⟩ := Prod.mk.inj (Option.some.inj taken)
          refine ⟨{ known with eax := some known.flag },
            ⟨fits.flag, ?_, fits.status⟩, after, computed, later⟩
          intro value same
          rw [← Option.some.inj same, fits.flag]
      | cli next =>
          obtain ⟨rfl, rfl⟩ := Prod.mk.inj (Option.some.inj taken)
          exact ⟨{ known with flag := false },
            ⟨rfl, fits.eax, fits.status⟩, after, computed, later⟩
      | sti next =>
          obtain ⟨rfl, rfl⟩ := Prod.mk.inj (Option.some.inj taken)
          exact ⟨{ known with flag := true },
            ⟨rfl, fits.eax, fits.status⟩, after, computed, later⟩
      | store next =>
          obtain ⟨rfl, rfl⟩ := Prod.mk.inj (Option.some.inj taken)
          exact ⟨{ known with status := known.eax },
            ⟨fits.flag, fits.eax, fits.eax⟩, after, computed, later⟩
      | load next =>
          obtain ⟨rfl, rfl⟩ := Prod.mk.inj (Option.some.inj taken)
          exact ⟨{ known with eax := known.status },
            ⟨fits.flag, fits.status, fits.status⟩, after, computed, later⟩
      | expectOff next =>
          simp only [statement, Option.ite_none_left_eq_some] at taken
          obtain ⟨rfl, rfl⟩ := Prod.mk.inj (Option.some.inj taken.2)
          rw [flow, Option.ite_none_right_eq_some] at computed
          exact ⟨known, fits, after, computed.2, later⟩
      | ifOn on off next =>
          obtain ⟨rfl, rfl⟩ := Prod.mk.inj (Option.some.inj taken)
          obtain ⟨value, isStatus, computed⟩ :=
            Option.bind_eq_some_iff.mp computed
          obtain ⟨branch, computed, onward⟩ :=
            Option.bind_eq_some_iff.mp computed
          refine ⟨known, fits, ?_⟩
          rw [← apply_ite (flow contract promise · known)] at computed
          rw [fits.status value isStatus]
          exact .of_branch computed
            (fun reached same => ⟨reached, same, .refl reached⟩) onward later
      | ite test yes no next =>
          obtain ⟨rfl, rfl⟩ := Prod.mk.inj (Option.some.inj taken)
          obtain ⟨left, computedLeft, computed⟩ :=
            Option.bind_eq_some_iff.mp computed
          obtain ⟨right, computedRight, computed⟩ :=
            Option.bind_eq_some_iff.mp computed
          obtain ⟨met, joined, onward⟩ := Option.bind_eq_some_iff.mp computed
          refine ⟨_, fits.forgetEax noise, ?_⟩
          simp only
          split
          · exact .of_branch computedLeft
              (fun reached same => join_weaker joined (Or.inl same)) onward
              later
          · exact .of_branch computedRight
              (fun reached same => join_weaker joined (Or.inr same)) onward
              later
      | loop test body next =>
          obtain ⟨rfl, rfl⟩ := Prod.mk.inj (Option.some.inj taken)
          have whole := computed
          obtain ⟨ended, around, computed⟩ :=
            Option.bind_eq_some_iff.mp computed
          rw [Option.ite_none_right_eq_some] at computed
          refine ⟨_, fits.forgetEax noise, ?_⟩
          simp only
          split
          · refine ⟨ended, around, ?_⟩
            rintro reached rfl
            have same : reached.flag = known.flag ∧
                reached.status = known.status := by
              simpa using computed.1
            refine ⟨{ known with eax := none }, ?_, after, whole, later⟩
            exact ⟨same.1.symm, fun _ impossible => (by cases impossible),
              fun _ isStatus => same.2.trans isStatus⟩
          · exact ⟨after, computed.2, later⟩
      | call | switch | ret => cases taken

/-- The thread is in code of its own or in a trap handler. -/
def OwnCode : List (Layer Routine Effect Test) → Prop
  | .routine _ :: _ => False
  | _ => True

private theorem ownCode_of_not_routine
    {layers : List (Layer Routine Effect Test)}
    (notRoutine : ∀ frame below, layers = .routine frame :: below → False) :
    OwnCode layers := by
  match layers with
  | [] => trivial
  | .handler flag eax :: below => trivial
  | .routine frame :: below => exact notRoutine frame below rfl

theorem Ready.of_ownCode {layers : List (Layer Routine Effect Test)}
    {flag eax : Bool} (ready : Ready contract flag eax layers)
    (own : OwnCode layers) (flag' eax' : Bool) :
    Ready contract flag' eax' layers := by
  match layers with
  | [] => trivial
  | .handler flag eax :: below => exact ready
  | .routine frame :: below => exact own.elim

section

variable {s : State Routine Effect Test Data}

private theorem Ok.goes (ok : Ok contract s) {core : Core Data}
    {layers : List (Layer Routine Effect Test)}
    (ready : Ready contract core.flag core.eax layers) :
    Ok contract (s.goes core layers) where
  running := by
    have same : (s.goes core layers).layers (s.goes core layers).current =
        layers :=
      s.goes_current core layers
    rw [same]
    exact ready
  waiting := by
    intro thread different eax
    rw [s.goes_other core layers different]
    exact ok.waiting thread different eax

theorem Ok.innermost (ok : Ok contract s) {frame : Frame Routine Effect Test}
    {below : List (Layer Routine Effect Test)}
    (layers : s.layers s.current = .routine frame :: below) :
    Ready contract s.core.flag s.core.eax (.routine frame :: below) := by
  have running := ok.running
  rwa [layers] at running

end

section Inversion

variable [DecidableEq Routine] {program : Program Routine Effect Test}
  {meaning : Meaning Effect Test Data} {s s' : State Routine Effect Test Data}

private theorem Step.go_inv {noise : Bool}
    (taken : Step program meaning s (.go noise) s') :
    ∃ frame below core' frame',
      s.layers s.current = .routine frame :: below ∧
      statement meaning s.current noise s.core frame = some (core', frame') ∧
      s' = s.goes core' (.routine frame' :: below) := by
  simp only [Step, next] at taken
  split at taken
  next frame below layers =>
    obtain ⟨⟨core', frame'⟩, ran, same⟩ := Option.map_eq_some_iff.mp taken
    exact ⟨frame, below, core', frame', layers, ran, same.symm⟩
  next => cases taken

private theorem Step.call_inv {routine : Routine} {argument : Bool}
    (taken : Step program meaning s (.call routine argument) s') :
    (∃ caller entry status work rest below,
      s.layers s.current =
        .routine ⟨caller, entry, status, .call routine work :: rest⟩ :: below ∧
      s' = s.goes s.core (program.enter routine s.core.flag status ::
        .routine ⟨caller, entry, status, work :: rest⟩ :: below)) ∨
    (OwnCode (s.layers s.current) ∧
      s' = s.goes s.core
        (program.enter routine s.core.flag argument ::
          s.layers s.current)) := by
  simp only [Step, next] at taken
  split at taken
  next caller entry status callee work rest below layers =>
    rw [Option.ite_none_right_eq_some] at taken
    obtain ⟨rfl, same⟩ := taken
    exact Or.inl ⟨caller, entry, status, work, rest, below, layers,
      (Option.some.inj same).symm⟩
  next => cases taken
  next notRoutine =>
    exact Or.inr ⟨ownCode_of_not_routine notRoutine,
      (Option.some.inj taken).symm⟩

private theorem Step.ret_inv (taken : Step program meaning s .ret s') :
    ∃ frame below, s.layers s.current = .routine frame :: below ∧
      (frame.work = [] ∨ ∃ rest, frame.work = .ret :: rest) ∧
      s' = s.goes s.core below := by
  simp only [Step, next] at taken
  split at taken
  next routine entry status below layers =>
    exact ⟨_, below, layers, Or.inl rfl, (Option.some.inj taken).symm⟩
  next routine entry status rest below layers =>
    exact ⟨_, below, layers, Or.inr ⟨rest, rfl⟩,
      (Option.some.inj taken).symm⟩
  next => cases taken

private theorem Step.switchTo_inv {thread : Nat}
    (taken : Step program meaning s (.switchTo thread) s') :
    ∃ caller entry status work rest below,
      s.layers s.current =
        .routine ⟨caller, entry, status, .switch work :: rest⟩ :: below ∧
      s' = { s.goes s.core
        (.routine ⟨caller, entry, status, work :: rest⟩ :: below) with
          current := thread } := by
  simp only [Step, next] at taken
  split at taken
  next caller entry status work rest below layers =>
    exact ⟨caller, entry, status, work, rest, below, layers,
      (Option.some.inj taken).symm⟩
  next => cases taken

private theorem Step.interrupt_inv
    (taken : Step program meaning s .interrupt s') :
    s' = s.goes { s.core with flag := false }
      (.handler s.core.flag s.core.eax :: s.layers s.current) := by
  simp only [Step, next, Option.ite_none_right_eq_some,
    Option.some.injEq] at taken
  exact taken.2.symm

private theorem Step.trap_inv (taken : Step program meaning s .trap s') :
    s' = s.goes { s.core with flag := false }
      (.handler s.core.flag s.core.eax :: s.layers s.current) := by
  simp only [Step, next] at taken
  split at taken
  next => cases taken
  next => exact (Option.some.inj taken).symm

private theorem Step.iret_inv (taken : Step program meaning s .iret s') :
    ∃ flag eax below, s.layers s.current = .handler flag eax :: below ∧
      s' = s.goes { s.core with flag, eax } below := by
  simp only [Step, next] at taken
  split at taken
  next flag eax below layers =>
    exact ⟨flag, eax, below, layers, (Option.some.inj taken).symm⟩
  next => cases taken

private theorem Step.other_inv {core : Core Data}
    (taken : Step program meaning s (.other core) s') :
    OwnCode (s.layers s.current) ∧ s' = s.goes core (s.layers s.current) := by
  simp only [Step, next] at taken
  split at taken
  next => cases taken
  next notRoutine =>
    exact ⟨ownCode_of_not_routine notRoutine, (Option.some.inj taken).symm⟩

namespace Ok

/-- A routine is called, by a routine or by other code. -/
theorem call (checked : Checked program contract) (ok : Ok contract s)
    {routine : Routine} {argument : Bool}
    (taken : Step program meaning s (.call routine argument) s') :
    Ok contract s' := by
  rcases taken.call_inv with ⟨caller, entry, status, work, rest, below, layers,
    rfl⟩ | ⟨own, rfl⟩
  · obtain ⟨known, promise, given, fits, promised, ⟨after, computed, later⟩,
      onward⟩ := ok.innermost layers
    obtain ⟨callee, calleePromised, computed⟩ :=
      Option.bind_eq_some_iff.mp computed
    apply ok.goes
    rw [fits.flag] at calleePromised
    refine ⟨⟨s.core.flag, none, known.status⟩, callee, known.status,
      ⟨rfl, fun _ impossible => (by cases impossible), fits.status⟩,
      calleePromised, checked.flowAll calleePromised, ?_⟩
    intro result meets
    exact ⟨⟨callee.flag, callee.eax, known.status⟩, promise, given,
      ⟨rfl, meets, fits.status⟩, promised, ⟨after, computed, later⟩, onward⟩
  · obtain ⟨callee, calleePromised⟩ := Option.ne_none_iff_exists'.mp
      (checked.total routine argument s.core.flag)
    apply ok.goes
    refine ⟨⟨s.core.flag, none, some argument⟩, callee, some argument,
      ⟨rfl, fun _ impossible => (by cases impossible),
        fun _ same => Option.some.inj same⟩,
      calleePromised, checked.flowAll calleePromised, ?_⟩
    intro result _
    exact ok.running.of_ownCode own _ _

theorem ret (ok : Ok contract s) (taken : Step program meaning s .ret s') :
    Ok contract s' ∧ ∃ frame below argument promise,
      s.layers s.current = .routine frame :: below ∧
      s' = s.goes s.core below ∧
      contract frame.routine argument frame.entry = some promise ∧
      s'.core.flag = promise.flag := by
  obtain ⟨frame, below, layers, ends, rfl⟩ := taken.ret_inv
  obtain ⟨known, promise, argument, fits, promised, follows, onward⟩ :=
    ok.innermost layers
  have kept : promise.Kept known := by
    rcases ends with work | ⟨rest, work⟩
    · rw [work] at follows
      exact follows
    · rw [work] at follows
      obtain ⟨after, computed, -⟩ := follows
      rw [flow, Option.ite_none_right_eq_some] at computed
      exact computed.1
  have flag : s.core.flag = promise.flag := fits.flag.symm.trans kept.1
  refine ⟨ok.goes ?_, frame, below, argument, promise, layers, rfl, promised,
    flag⟩
  rw [flag]
  apply onward
  intro value same
  rcases kept.2 with none | equal
  · rw [same] at none
    cases none
  · exact fits.eax value (equal.symm.trans same)

theorem switchTo (ok : Ok contract s) {thread : Nat}
    (taken : Step program meaning s (.switchTo thread) s') :
    Ok contract s' ∧ s.core.flag = false := by
  obtain ⟨caller, entry, status, work, rest, below, layers, rfl⟩ :=
    taken.switchTo_inv
  obtain ⟨known, promise, argument, fits, promised, ⟨after, computed, later⟩,
    onward⟩ := ok.innermost layers
  rw [flow, Option.ite_none_left_eq_some, fits.flag,
    Bool.not_eq_true] at computed
  obtain ⟨off, computed⟩ := computed
  refine ⟨?_, off⟩
  have suspended (eax : Bool) : Ready contract false eax
      (.routine ⟨caller, entry, status, work :: rest⟩ :: below) :=
    ⟨⟨s.core.flag, none, known.status⟩, promise, argument,
      ⟨off, fun _ impossible => (by cases impossible), fits.status⟩, promised,
      ⟨after, computed, later⟩, onward⟩
  have waits (other : Nat) (eax : Bool) : Ready contract false eax
      ((s.goes s.core (.routine ⟨caller, entry, status, work :: rest⟩ ::
        below)).layers other) := by
    by_cases same : other = s.current
    · rw [same, s.goes_current]
      exact suspended eax
    · rw [s.goes_other _ _ same]
      exact ok.waiting other same eax
  constructor
  case running =>
    have running := waits thread s.core.eax
    rwa [← off] at running
  case waiting => exact fun other _ eax => waits other eax

theorem step (checked : Checked program contract) (ok : Ok contract s)
    {event : Event Routine Data} (taken : Step program meaning s event s') :
    Ok contract s' := by
  cases event with
  | go noise =>
      obtain ⟨frame, below, core, frame', layers, ran, rfl⟩ := taken.go_inv
      obtain ⟨known, promise, argument, fits, promised, follows, onward⟩ :=
        ok.innermost layers
      obtain ⟨sameRoutine, sameEntry⟩ := statement_frame ran
      obtain ⟨known', fits', follows'⟩ := statement_follows fits follows ran
      apply ok.goes
      rw [← sameRoutine, ← sameEntry] at promised
      exact ⟨known', promise, argument, fits', promised, follows', onward⟩
  | call routine argument => exact ok.call checked taken
  | ret => exact (ok.ret taken).1
  | switchTo thread => exact (ok.switchTo taken).1
  | interrupt =>
      rw [taken.interrupt_inv]
      exact ok.goes ok.running
  | trap =>
      rw [taken.trap_inv]
      exact ok.goes ok.running
  | iret =>
      obtain ⟨flag, eax, below, layers, rfl⟩ := taken.iret_inv
      have running := ok.running
      rw [layers] at running
      exact ok.goes running
  | other core =>
      obtain ⟨own, rfl⟩ := taken.other_inv
      exact ok.goes (ok.running.of_ownCode own _ _)

end Ok

/-! ## From a call to its return -/

/-- The layers are the same, but for how far the innermost routine is. -/
def SameCalls (layers layers' : List (Layer Routine Effect Test)) : Prop :=
  layers' = layers ∨ ∃ frame frame' below,
    layers = .routine frame :: below ∧ layers' = .routine frame' :: below ∧
      frame'.routine = frame.routine ∧ frame'.entry = frame.entry

/-- The routine was called at this flag, on so many layers. -/
def HasCall (routine : Routine) (entry : Bool) (depth : Nat)
    (layers : List (Layer Routine Effect Test)) : Prop :=
  ∃ inner frame below, layers = inner ++ .routine frame :: below ∧
    frame.routine = routine ∧ frame.entry = entry ∧ below.length = depth

theorem Step.layers_cases {event : Event Routine Data}
    (taken : Step program meaning s event s') :
    (∃ pushed layers, SameCalls (s.layers s.current) layers ∧
      s'.layers s.current = pushed ++ layers) ∨
    (∃ flag eax, s.layers s.current =
      .handler flag eax :: s'.layers s.current) ∨
    event = .ret ∧ ∃ frame,
      s.layers s.current = .routine frame :: s'.layers s.current := by
  cases event with
  | go noise =>
      obtain ⟨frame, below, core, frame', layers, ran, rfl⟩ := taken.go_inv
      obtain ⟨sameRoutine, sameEntry⟩ := statement_frame ran
      exact Or.inl ⟨[], _, Or.inr ⟨frame, frame', below, layers, rfl,
        sameRoutine, sameEntry⟩, s.goes_current _ _⟩
  | call routine argument =>
      rcases taken.call_inv with ⟨caller, entry, status, work, rest, below,
        layers, rfl⟩ | ⟨own, rfl⟩
      · refine Or.inl ⟨[_], _, ?_, s.goes_current _ _⟩
        exact Or.inr ⟨_, _, below, layers, rfl, rfl, rfl⟩
      · exact Or.inl ⟨[_], _, Or.inl rfl, s.goes_current _ _⟩
  | ret =>
      obtain ⟨frame, below, layers, -, rfl⟩ := taken.ret_inv
      rw [s.goes_current]
      exact Or.inr (Or.inr ⟨rfl, frame, layers⟩)
  | switchTo thread =>
      obtain ⟨caller, entry, status, work, rest, below, layers, rfl⟩ :=
        taken.switchTo_inv
      refine Or.inl ⟨[], _, ?_, s.goes_current s.core _⟩
      exact Or.inr ⟨_, _, below, layers, rfl, rfl, rfl⟩
  | interrupt =>
      rw [taken.interrupt_inv]
      exact Or.inl ⟨[_], _, Or.inl rfl, s.goes_current _ _⟩
  | trap =>
      rw [taken.trap_inv]
      exact Or.inl ⟨[_], _, Or.inl rfl, s.goes_current _ _⟩
  | iret =>
      obtain ⟨flag, eax, below, layers, rfl⟩ := taken.iret_inv
      rw [s.goes_current]
      exact Or.inr (Or.inl ⟨flag, eax, layers⟩)
  | other core =>
      obtain ⟨-, rfl⟩ := taken.other_inv
      exact Or.inl ⟨[], _, Or.inl rfl, s.goes_current _ _⟩

private theorem Step.layers_other {event : Event Routine Data} {thread : Nat}
    (taken : Step program meaning s event s') (different : thread ≠ s.current) :
    s'.layers thread = s.layers thread := by
  have goes (core : Core Data) (layers : List (Layer Routine Effect Test)) :=
    s.goes_other core layers different
  cases event with
  | go noise =>
      obtain ⟨frame, below, core, frame', -, -, rfl⟩ := taken.go_inv
      exact goes _ _
  | call routine argument =>
      rcases taken.call_inv with ⟨caller, entry, status, work, rest, below, -,
        rfl⟩ | ⟨-, rfl⟩
      · exact goes _ _
      · exact goes _ _
  | ret =>
      obtain ⟨frame, below, -, -, rfl⟩ := taken.ret_inv
      exact goes _ _
  | switchTo next =>
      obtain ⟨caller, entry, status, work, rest, below, -, rfl⟩ :=
        taken.switchTo_inv
      exact goes s.core _
  | interrupt =>
      rw [taken.interrupt_inv]
      exact goes _ _
  | trap =>
      rw [taken.trap_inv]
      exact goes _ _
  | iret =>
      obtain ⟨flag, eax, below, -, rfl⟩ := taken.iret_inv
      exact goes _ _
  | other core =>
      obtain ⟨-, rfl⟩ := taken.other_inv
      exact goes _ _

omit [DecidableEq Routine] in
private theorem HasCall.sameCalls {routine : Routine} {entry : Bool}
    {depth : Nat} {layers layers' : List (Layer Routine Effect Test)}
    (call : HasCall routine entry depth layers)
    (same : SameCalls layers layers') :
    HasCall routine entry depth layers' := by
  rcases same with rfl | ⟨top, top', under, rfl, rfl, sameRoutine, sameEntry⟩
  · exact call
  · obtain ⟨inner, frame, below, equal, isRoutine, isEntry, length⟩ := call
    cases inner with
    | nil =>
        obtain ⟨isTop, rfl⟩ := List.cons.inj equal
        obtain rfl := Layer.routine.inj isTop
        exact ⟨[], top', under, rfl, sameRoutine.trans isRoutine,
          sameEntry.trans isEntry, length⟩
    | cons first inner =>
        obtain ⟨-, rfl⟩ := List.cons.inj equal
        exact ⟨.routine top' :: inner, frame, below, rfl, isRoutine, isEntry,
          length⟩

omit [DecidableEq Routine] in
private theorem HasCall.pop {routine : Routine} {entry : Bool} {depth : Nat}
    {top : Layer Routine Effect Test}
    {layers : List (Layer Routine Effect Test)}
    (call : HasCall routine entry depth (top :: layers)) :
    HasCall routine entry depth layers ∨
      layers.length = depth ∧ ∃ frame, top = .routine frame ∧
        frame.routine = routine ∧ frame.entry = entry := by
  obtain ⟨inner, frame, below, equal, isRoutine, isEntry, length⟩ := call
  cases inner with
  | nil =>
      obtain ⟨rfl, rfl⟩ := List.cons.inj equal
      exact Or.inr ⟨length, frame, rfl, isRoutine, isEntry⟩
  | cons first inner =>
      obtain ⟨-, rfl⟩ := List.cons.inj equal
      exact Or.inl ⟨inner, frame, below, rfl, isRoutine, isEntry, length⟩

omit [DecidableEq Routine] in
private theorem HasCall.length {routine : Routine} {entry : Bool} {depth : Nat}
    {layers : List (Layer Routine Effect Test)}
    (call : HasCall routine entry depth layers) : depth < layers.length := by
  obtain ⟨inner, frame, below, rfl, -, -, rfl⟩ := call
  simp only [List.length_append, List.length_cons]
  omega

/-- A call lasts until a step leaves no more layers than it came upon; that
step is its return. -/
theorem HasCall.step {routine : Routine} {entry : Bool} {depth thread : Nat}
    {event : Event Routine Data}
    (call : HasCall routine entry depth (s.layers thread))
    (taken : Step program meaning s event s') :
    HasCall routine entry depth (s'.layers thread) ∨
      thread = s.current ∧ (s'.layers thread).length = depth ∧ event = .ret ∧
        ∃ frame, s.layers s.current = .routine frame :: s'.layers s.current ∧
          frame.routine = routine ∧ frame.entry = entry := by
  by_cases same : thread = s.current
  · subst same
    rcases taken.layers_cases with ⟨pushed, layers, sameCalls, equal⟩ |
      ⟨flag, eax, popped⟩ | ⟨isRet, top, popped⟩
    · obtain ⟨inner, frame, below, rfl, rest⟩ := call.sameCalls sameCalls
      refine Or.inl ⟨pushed ++ inner, frame, below, ?_, rest⟩
      rw [equal, List.append_assoc]
    · rw [popped] at call
      rcases call.pop with still | ⟨-, frame, impossible, -⟩
      · exact Or.inl still
      · cases impossible
    · rw [popped] at call
      rcases call.pop with still | ⟨length, frame, isTop, rest⟩
      · exact Or.inl still
      · rw [isTop] at popped
        exact Or.inr ⟨rfl, length, isRet, frame, popped, rest⟩
  · rw [taken.layers_other same]
    exact Or.inl call

/-- A call lasts while the thread has more layers than it came upon. -/
theorem HasCall.run {routine : Routine} {entry : Bool} {depth thread : Nat}
    {first : State Routine Effect Test Data}
    {trace : List (Event Routine Data × State Routine Effect Test Data)}
    (call : HasCall routine entry depth (first.layers thread))
    (run : Run (Step program meaning) first trace s)
    (inside : ∀ event reached, (event, reached) ∈ trace →
      depth < (reached.layers thread).length) :
    HasCall routine entry depth (s.layers thread) := by
  induction run with
  | start => exact call
  | @next trace current last event before taken inductionHypothesis =>
      have sofar := inductionHypothesis fun event reached member =>
        inside event reached (List.mem_append_left _ member)
      have deeper := inside event last
        (List.mem_append_right _ (List.mem_singleton_self _))
      rcases sofar.step taken with still | ⟨-, length, -⟩
      · exact still
      · omega

/-! ## Whole runs -/

omit [DecidableEq Routine] in
private theorem Start.ok (checked : Checked program contract)
    (start : Start program s) : Ok contract s where
  running := by
    rw [start.running]
    trivial
  waiting := by
    intro thread different eax
    rw [start.fresh thread different]
    obtain ⟨promise, promised⟩ := Option.ne_none_iff_exists'.mp
      (checked.total program.first false false)
    exact ⟨⟨false, none, some false⟩, promise, some false,
      ⟨rfl, fun _ impossible => (by cases impossible),
        fun _ same => Option.some.inj same⟩,
      promised, checked.flowAll promised, fun _ _ => trivial⟩

theorem Ok.of_run (checked : Checked program contract)
    {first : State Routine Effect Test Data}
    {trace : List (Event Routine Data × State Routine Effect Test Data)}
    (start : Start program first)
    (run : Run (Step program meaning) first trace s) : Ok contract s :=
  run.invariant (start.ok checked) fun _ _ _ ok taken => ok.step checked taken

/-- Switches are made with the flag off. -/
theorem switch_off (checked : Checked program contract)
    {first : State Routine Effect Test Data}
    {trace : List (Event Routine Data × State Routine Effect Test Data)}
    (start : Start program first)
    (run : Run (Step program meaning) first trace s) {thread : Nat}
    (taken : Step program meaning s (.switchTo thread) s') :
    s.core.flag = false :=
  ((Ok.of_run checked start run).switchTo taken).2

/-- When a call returns, the flag is the one that the contract promises for
the flag at the call. -/
theorem return_meets (checked : Checked program contract)
    {first s₁ s₂ s₃ : State Routine Effect Test Data}
    {earlier trace :
      List (Event Routine Data × State Routine Effect Test Data)}
    {routine : Routine} {argument : Bool} {event : Event Routine Data}
    (start : Start program first)
    (before : Run (Step program meaning) first earlier s)
    (called : Step program meaning s (.call routine argument) s₁)
    (run : Run (Step program meaning) s₁ trace s₂)
    (inside : ∀ event reached, (event, reached) ∈ trace →
      (s.layers s.current).length < (reached.layers s.current).length)
    (taken : Step program meaning s₂ event s₃)
    (returned : (s₃.layers s.current).length = (s.layers s.current).length) :
    s₂.current = s.current ∧ ∃ argument promise,
      contract routine argument s.core.flag = some promise ∧
        s₃.core.flag = promise.flag := by
  have ok : Ok contract s₂ :=
    Ok.of_run checked start ((before.next called).append run)
  have call : HasCall routine s.core.flag (s.layers s.current).length
      (s₁.layers s.current) := by
    rcases called.call_inv with ⟨caller, entry, status, work, rest, below,
      layers, rfl⟩ | ⟨own, rfl⟩
    · rw [s.goes_current, layers]
      exact ⟨[], _, _, rfl, rfl, rfl, rfl⟩
    · rw [s.goes_current]
      exact ⟨[], _, _, rfl, rfl, rfl, rfl⟩
  rcases (call.run run inside).step taken with still |
    ⟨same, -, rfl, frame, layers, isRoutine, isEntry⟩
  · have deeper := still.length
    omega
  · obtain ⟨-, top, below, argument, promise, equal, -, promised, flag⟩ :=
      ok.ret taken
    rw [layers] at equal
    obtain ⟨isTop, -⟩ := List.cons.inj equal
    obtain rfl := Layer.routine.inj isTop
    rw [isRoutine, isEntry] at promised
    exact ⟨same.symm, argument, promise, promised, flag⟩

end Inversion

end Invariant

end Simos.Library.IrqRoutines
