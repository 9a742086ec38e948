import RegionAlloc.Layout
import RegionAlloc.Session.Command
import RegionAlloc.Session.Store

/-!
# Running a client session

A session drives one heap by commands, one after the other, and reports on each. It ends early with
the first command that faults. Failure hooks are numbered; each run of one is counted. Where the
heap is shared through its lock, two of them use the heap themselves.
-/

namespace RegionAlloc.Session

/-- Whether the client has the heap to itself or reaches it through its lock. -/
inductive Access where
  | exclusive
  | shared
  deriving DecidableEq, Repr

/-- The hook that looks up the bytes free, where the heap is shared. -/
def freeBytesHook : Hook := 2

/-- The hook that tries to allocate eight bytes, where the heap is shared. -/
def allocatingHook : Hook := 3

def hookBody (access : Access) : HookBodies (Guarded Store) := fun hook =>
  if access = .exclusive then
    return ()
  else if hook = freeBytesHook then do
    let bytes ← Guarded.locked (.ask fun store : Store => .ok store.usage.free)
    .emit (.sawFree bytes)
  else if hook = allocatingHook then do
    let address ← Guarded.locked (Allocator.tryAllocate 8 : Call Store _)
    .emit (.sawAllocation address)
  else
    return ()

abbrev Action := Call (Guarded Store)

/-- Reads something off the heap, with the lock held. -/
def inspect {α : Type} (question : Store → Except Fault α) : Action α :=
  Guarded.locked (.ask question)

def regionBase : Action Nat := do
  let g ← .state
  return (HasRegion.region g).base

/-- The answer to an allocation: its place, which the session keeps, also if there is none. -/
def placed (address : Option Nat) : Action Answer := do
  match address with
  | none => return { reply := .place none, kept := some .null }
  | some address =>
    let distance : Int := address - (← regionBase)
    return { reply := .place (some distance), kept := some (.inRegion distance) }

def answer (reply : Reply) : Action Answer :=
  return { reply }

/-- Answers as `use` says if the size and the boundary are a layout. -/
def withLayout (size align : Nat) (use : Layout → Action Answer) : Action Answer :=
  match Layout.of? size align with
  | some layout => use layout
  | none => answer .noLayout

/-- Answers by a call that only tagged heaps know. -/
def taggedOnly {α : Type} (c : Call Tagged.Heap α) (reply : α → Reply) : Action Answer := do
  match ← Guarded.locked (Store.onTagged c) with
  | some a => answer (reply a)
  | none => answer .unsupported

/-- Allocates zeroed memory for an array. Where the heap is shared, a hook runs inside the lock. -/
def allocateZeroed (access : Access) (count size : Nat) : Action Answer := do
  match (← .state).heap, access with
  | .twoList _, _ => answer .unsupported
  | .tagged _, .exclusive =>
    placed (← Guarded.locked (Store.onTagged (Tagged.Heap.allocateZeroed count size))).join
  | .tagged _, .shared =>
    placed (← Guarded.holding
      (Allocator.zeroedBy (Guarded.allocateOnHeap (hookBody access)) count size))

def handleFor (element : Element) : TypedHandle :=
  { heap := 0, element }

/-- The handle that comes from `first` in this way. -/
def derive (first : TypedHandle) (element : Element) : Derivation → TypedHandle
  | .rebound | .copied => first.rebind element
  | .remade => { heap := first.heap, element }
  | .foreign => { heap := first.heap + 1, element }

/-- Goes on as `use` says if a range of addresses lies in the region. -/
def ifInRange (address count : Nat) (use : Action Answer) : Action Answer := do
  let g ← .state
  if (HasRegion.region g).containsRange address count then use else answer .outOfRange

/-- Carries out a command. `pointerAt` looks up the pointers that the session keeps. -/
def perform (access : Access) (pointerAt : Nat → Option Pointer) (command : Command) :
    Action Answer := do
  let base ← regionBase
  let body := hookBody access
  let withPointer (number : Nat) (use : Nat → Action Answer) : Action Answer :=
    match pointerAt number with
    | some pointer => use (pointer.address base)
    | none => answer .unknownPointer
  match command with
  | .allocate request =>
    match access with
    | .exclusive => placed (← Guarded.locked (Allocator.allocate request))
    | .shared => placed (← Guarded.allocate body request)
  | .allocateOnHeap request =>
    placed (← Guarded.holding (Guarded.allocateOnHeap body request))
  | .tryAllocate request => placed (← Guarded.locked (Allocator.tryAllocate request))
  | .allocateZeroed count size => allocateZeroed access count size
  | .release (.kept number) =>
    withPointer number fun address => do
      Guarded.release address
      answer .nothing
  | .release (.direct pointer) =>
    Guarded.release (pointer.address base)
    answer .nothing
  | .fill number value count =>
    withPointer number fun address =>
      ifInRange address count do
        HasRegion.writeAt address (List.replicate count value)
        answer .nothing
  | .poke offset data =>
    ifInRange (base + offset) data.length do
      HasRegion.writeAt (base + offset) data
      answer .nothing
  | .peek offset count =>
    ifInRange (base + offset) count do
      answer (.bytes (← HasRegion.readAt (base + offset) count))
  | .hasHook => answer (.flag (← inspect fun store => .ok (Allocator.hook store).isSome))
  | .onFailure hook => taggedOnly (Tagged.Heap.onFailure hook) .hook
  | .alignment => answer (.number (← Guarded.alignment))
  | .freeBytes => answer (.number (← inspect fun store => .ok store.usage.free))
  | .lowWater => taggedOnly .state fun heap => .number heap.usage.lowWater
  | .resetLowWater => taggedOnly Tagged.Heap.resetLowWater fun _ => .nothing
  | .statistics => answer (.statistics (← inspect Store.statistics))
  | .describeStatistics =>
    let statistics ← inspect Store.statistics
    answer (.listing (statistics.figures.map fun (label, n) => (label, toString n)))
  | .isSound => answer (.flag (← inspect Store.isSound))
  | .allocateLayout size align =>
    withLayout size align fun layout => do placed (← Guarded.allocateLayout body layout)
  | .allocateLayoutZeroed size align =>
    withLayout size align fun layout => do placed (← Guarded.allocateLayoutZeroed body layout)
  | .releaseLayout number size align =>
    withLayout size align fun layout =>
      withPointer number fun address => do
        Guarded.releaseLayout address layout
        answer .nothing
  | .reallocateLayout number size align newSize =>
    withLayout size align fun layout =>
      withLayout newSize align fun target =>
        withPointer number fun address =>
          ifInRange address (min size newSize) do
            placed (← Guarded.reallocateLayout body address layout target)
  | .allocateArray element count =>
    match ← (handleFor element).allocate body count with
    | .ok (.block address) => placed (some address)
    | .ok (.dangling align) =>
      return { reply := .dangling align, kept := some (.absolute align) }
    | .error error => return { reply := .typedError error, kept := some .null }
  | .releaseArray number element count =>
    withPointer number fun address => do
      (handleFor element).release address count
      answer .nothing
  | .compareHandles first second derivation =>
    let x := handleFor first
    let y := derive x second derivation
    answer (.comparison (x.sameHeap y) (y.sameHeap x) (x.heap == y.heap))
  | .describeHandle element => answer (.handle (handleFor element))

/-- The pointer that a command gives back, if it names one. -/
def givenBack (pointerAt : Nat → Option Pointer) : Command → Option Pointer
  | .release (.kept number) => pointerAt number
  | .release (.direct pointer) => some pointer
  | .releaseLayout number .. => pointerAt number
  | .releaseArray number .. => pointerAt number
  | .reallocateLayout number .. => pointerAt number
  | _ => none

structure Observation where
  statistics : Statistics
  isSound : Bool

def observe : Action Observation := do
  let statistics ← inspect Store.statistics
  let isSound ← inspect Store.isSound
  return { statistics, isSound }

structure State where
  access : Access
  observing : Bool
  guarded : Guarded Store
  pointers : Array Pointer
  /-- The hooks that were run so far. -/
  rings : List Hook

structure Report where
  /-- The reply, or the wording of the fault that ended the session. -/
  outcome : Except String Reply
  observation : Option Observation
  rings : List Hook
  events : List Event
  naming : Naming

/-- A session that has run no command yet. -/
def State.begin (access : Access) (observing : Bool) (store : Store) : State :=
  { access, observing, guarded := Guarded.ofHeap store, pointers := #[], rings := [] }

/-- How addresses are written in what a command reports: relative to the region, but the pointer
that it gives back as that pointer is written. -/
def namingFor (base : Nat) (given : Option Pointer) : Naming := fun address =>
  match given with
  | some pointer =>
    if address = pointer.address base then pointer.text else Naming.relativeTo base address
  | none => Naming.relativeTo base address

/-- A command, followed by an observation where the session makes them. -/
def performObserved (access : Access) (observing : Bool) (pointerAt : Nat → Option Pointer)
    (command : Command) : Action (Answer × Option Observation) := do
  let answer ← perform access pointerAt command
  if observing then
    return (answer, some (← observe))
  else
    return (answer, none)

def rungIn (events : List Event) : List Hook :=
  events.filterMap fun
    | .rang hook => some hook
    | _ => none

def State.step : State → Command → State × Report
  | { access, observing, guarded, pointers, rings }, command =>
    let pointerAt := fun number : Nat => pointers[number]?
    let naming := namingFor (HasRegion.region guarded).base (givenBack pointerAt command)
    match (performObserved access observing pointerAt command).run guarded with
    | ⟨.ok (answer, observation), guarded, events⟩ =>
      let rings := rings ++ rungIn events
      let pointers := answer.kept.elim pointers pointers.push
      ({ access, observing, guarded, pointers, rings },
        { outcome := .ok answer.reply, observation, rings, events, naming })
    | ⟨.error fault, guarded, events⟩ =>
      let rings := rings ++ rungIn events
      ({ access, observing, guarded, pointers, rings },
        { outcome := .error (fault.message naming), observation := none, rings, events, naming })

/-- Runs commands until one faults. Gives the reports, and the session if none did. -/
def State.run (s : State) : List Command → List Report × Option State
  | [] => ([], some s)
  | command :: rest =>
    match s.step command with
    | (s', report) =>
      match report.outcome with
      | .error _ => ([report], none)
      | .ok _ =>
        let (reports, last) := s'.run rest
        (report :: reports, last)

end RegionAlloc.Session
