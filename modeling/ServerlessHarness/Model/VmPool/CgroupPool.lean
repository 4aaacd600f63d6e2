import ServerlessHarness.Library.Transition
import ServerlessHarness.Model.VmPool.Workspace

/-!
# The pool of reusable cgroups

`acquire` and `release` of `cgroupPool`, one step for each critical section on `p.mu` and for each
call on the filesystem between two of them. A goroutine is a holder: it acquires a name, and it may
release it once. `Cgroups` is what is below the parent slice: whether a name's directory exists,
and the `memory.max` that was written into it. Someone else may remove a directory at any time.

`log` records what the pool did with a name, for the statements only. The names are slice-relative;
`abs` puts the same root in front of all of them and is left out.
-/

set_option autoImplicit false

namespace ServerlessHarness.VmPool

open Library

/-- The fields that `acquire` and `release` use. `issued` is an `int` in the source.
SRCLINE: cgroup_pool.go:37-56 -/
structure CgroupPool where
  parent : String
  memMax : Int
  free : List SlashPath
  issued : Nat
  leaked : Nat
deriving Repr

/-- SRCLINE: cgroup_pool.go:58-60 -/
def newCgroupPool (parent : String) (memMax : Int) : CgroupPool := ⟨parent, memMax, [], 0, 0⟩

/-- SRCLINE: cgroup.go:134 -/
def pooledCgroupPrefix : String := "pool-"

/-- The name with the given number.
SRCLINE: cgroup_pool.go:98 -/
def CgroupPool.name (p : CgroupPool) (seq : Nat) : SlashPath :=
  (SlashPath.clean p.parent).join (pooledCgroupPrefix ++ toString seq)

/-- The directories below the slice; the inner value is the `memory.max` written into one, if
any. -/
abbrev Cgroups : Type := SlashPath → Option (Option Int)

/-- What the pool did with a name. -/
inductive CgroupEvent where
  | minted (rel : SlashPath)
  | created (rel : SlashPath)
  | wrote (rel : SlashPath)
  | handed (rel : SlashPath)
deriving DecidableEq, Repr

/-- How far a holder got: in `acquire` and `create`, holding a name, and in `release`. -/
inductive HolderPc where
  | acquire
  | stat (rel : SlashPath)
  | mkdir (rel : SlashPath)
  | write (rel : SlashPath)
  | failed
  | holding (rel : SlashPath)
  | releaseStat (rel : SlashPath)
  | readProcs (rel : SlashPath)
  | push (rel : SlashPath)
  | released
deriving DecidableEq, Repr

/-- What a call on the filesystem may do; `procs` is the number of processes that `cgroup.procs`
lists, none where there is no such file. -/
inductive CgroupChoice where
  | go
  | fail
  | procs (n : Nat)
deriving DecidableEq, Repr

/-- What one step of a holder leads to. -/
structure CgroupTurn where
  pool : CgroupPool
  cgroups : Cgroups
  events : List CgroupEvent
  pc : HolderPc

/-- One step of a holder. The name that could not be created or bounded is not given back; that is
what `leaked` counts when the directory is there.
SRCLINE: cgroup_pool.go:74-162, cgroup.go:359-375, 522-543 -/
def holderStep (p : CgroupPool) (fs : Cgroups) : HolderPc → CgroupChoice → Option CgroupTurn
  | .acquire, .go =>
    match p.free.getLast? with
    | some rel => some ⟨{ p with free := p.free.dropLast }, fs, [], .stat rel⟩
    | none =>
      some ⟨{ p with issued := p.issued + 1 }, fs, [.minted (p.name p.issued)],
        .mkdir (p.name p.issued)⟩
  | .stat rel, .go =>
    if (fs rel).isSome then some ⟨p, fs, [.handed rel], .holding rel⟩ else some
      ⟨p, fs, [], .mkdir rel⟩
  | .stat rel, .fail => some ⟨p, fs, [], .mkdir rel⟩
  | .mkdir rel, .go =>
    match fs rel with
    | some _ => some ⟨p, fs, [], .write rel⟩
    | none => some ⟨p, Function.update fs rel (some none), [.created rel], .write rel⟩
  | .mkdir _, .fail => some ⟨p, fs, [], .failed⟩
  | .write rel, .go =>
    if p.memMax ≤ 0 ∨ fs rel = none then some ⟨{ p with leaked := p.leaked + 1 }, fs, [], .failed⟩
    else
      some ⟨p, Function.update fs rel (some (some p.memMax)), [.wrote rel, .handed rel],
        .holding rel⟩
  | .write _, .fail => some ⟨{ p with leaked := p.leaked + 1 }, fs, [], .failed⟩
  | .releaseStat rel, .go =>
    if (fs rel).isSome then some ⟨p, fs, [], .readProcs rel⟩ else some ⟨p, fs, [], .released⟩
  | .releaseStat _, .fail => some ⟨p, fs, [], .released⟩
  | .readProcs rel, .procs n =>
    if n > 0 then some ⟨{ p with leaked := p.leaked + 1 }, fs, [], .released⟩
    else some ⟨p, fs, [], .push rel⟩
  | .readProcs _, .fail => some ⟨{ p with leaked := p.leaked + 1 }, fs, [], .released⟩
  | .push rel, .go => some ⟨{ p with free := p.free ++ [rel] }, fs, [], .released⟩
  | _, _ => none

/-- The pool, the slice and every holder so far. -/
structure CgroupSys where
  pool : CgroupPool
  cgroups : Cgroups
  log : List CgroupEvent
  holders : List HolderPc

/-- A new call of `acquire`, the call of `release` by a holder, the removal of a directory by
someone else, or a step of a holder. -/
inductive CgroupAction where
  | callAcquire
  | callRelease (i : Nat)
  | remove (rel : SlashPath)
  | run (i : Nat) (c : CgroupChoice)
deriving DecidableEq, Repr

/-- One step of the pool and its environment. A holder releases the name that it holds, once. -/
def cgroupStep (s : CgroupSys) : CgroupAction → Option CgroupSys
  | .callAcquire => some { s with holders := s.holders ++ [.acquire] }
  | .callRelease i =>
    match s.holders[i]? with
    | some (.holding rel) => some { s with holders := s.holders.set i (.releaseStat rel) }
    | _ => none
  | .remove rel => some { s with cgroups := Function.update s.cgroups rel none }
  | .run i c =>
    match s.holders[i]? with
    | none => none
    | some pc =>
      (holderStep s.pool s.cgroups pc c).map fun t =>
        ⟨t.pool, t.cgroups, s.log ++ t.events, s.holders.set i t.pc⟩

/-- Every run of a new pool over a slice with anything in it. -/
def cgroupSystem (parent : String) (memMax : Int) : TransitionSystem CgroupSys :=
  .ofStep (fun s => ∃ fs, s = ⟨newCgroupPool parent memMax, fs, [], []⟩) cgroupStep

end ServerlessHarness.VmPool
