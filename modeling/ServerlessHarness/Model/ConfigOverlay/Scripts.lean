import ServerlessHarness.Library.Transition
import ServerlessHarness.Library.OrderedMap
import ServerlessHarness.Model.ConfigBundle.Tar

/-!
# The overlay scripts

A leaf mirrors its bundle into the sandbox with four scripts, each an execution of its own:
`acquire` claims a ref on the digest, `populate` fills the cache of the digest if it is not there,
`bind` links it into the leaf's workspace, and `cleanup` drops the ref and, if it was the last, the
cache. The first two and the last hold the pod's lock.

The scripts of any number of leaves on one pod are a system here whose steps are single commands.
`Pc` names the command that comes next. A script may be killed at any command, with everything it
started; its lock is then free. Extracting an archive and removing a tree are steps of one file
each.
-/

set_option autoImplicit false

namespace ServerlessHarness.ConfigOverlay

open Library

/-- SRCLINE: config-overlay.ts:56-60 -/
def safeSessionId (sessionId : String) : Bool :=
  sessionId ≠ "" && sessionId.toList.all (fun c =>
    ('A' ≤ c && c ≤ 'Z') || ('a' ≤ c && c ≤ 'z') || ('0' ≤ c && c ≤ '9') ||
      c = '.' || c = '_' || c = '-') &&
    sessionId ≠ "." && sessionId ≠ ".."

/-- In seconds.
SRCLINE: config-overlay.ts:44 -/
def refStale : ℕ := 1440 * 60

/-- The next command of a leaf. -/
inductive Pc where
  /-- `acquire`: `flock 9` -/
  | acquireLock
  /-- `mkdir -p "$REFS"` -/
  | acquireMkdir
  /-- `find "$REFS" … -delete` -/
  | acquireSweep
  /-- `: > "$REFS/<session>"` -/
  | acquireRef
  /-- `[ -d "$DIR" ]` -/
  | acquireTest
  /-- The end of `acquire`, with what it printed -/
  | acquired (hit : Bool)
  /-- `populate`: `flock 9` -/
  | populateLock
  /-- `[ -d "$DIR" ] && exit 0` -/
  | populateTest
  /-- `rm -rf "$TMP"; mkdir -p "$TMP"` -/
  | populateStage
  /-- `base64 -d | tar -x -z -C "$TMP"` -/
  | populateExtract
  /-- `find "$TMP" -name '*.sh' -exec chmod +x` -/
  | populateScripts
  /-- `chmod -R a-w "$TMP"` -/
  | populateSeal
  /-- `mv "$TMP" "$DIR"` -/
  | populateMove
  /-- The end of `populate`, through its trap -/
  | populated
  /-- The end of a script that failed, through its trap -/
  | failing
  /-- `bind`: `mkdir -p` and `ln -sfn "$DIR" "$LEAF"` -/
  | bindLink
  /-- `overlayConfig` has returned, and the turn runs -/
  | running
  /-- `cleanup`: `rm -f` of the link -/
  | cleanupUnlink
  /-- `flock 9` -/
  | cleanupLock
  /-- `rm -f "$REFS/<session>"` -/
  | cleanupRef
  /-- `find "$REFS" … -delete` -/
  | cleanupSweep
  /-- `[ -z "$(ls -A "$REFS")" ]` -/
  | cleanupTest
  /-- `chmod -R u+w "$DIR"` -/
  | cleanupChmod
  /-- `rm -rf "$DIR"` -/
  | cleanupRemove
  /-- `rmdir "$REFS"` -/
  | cleanupRmdir
  /-- The end of `cleanup` -/
  | cleaned
  | finished
  /-- The harness of the leaf is no more -/
  | gone
deriving DecidableEq, Repr

/-- `staging` is what `"$TMP"` holds. -/
structure Leaf (ε : Type) where
  sessionId : String
  digest : String
  born : ℕ
  pc : Pc
  staging : List ε

/-- The caches by digest, the refs by digest and session with their times, and the links by
session. -/
structure World (ε : Type) where
  now : ℕ
  lock : Option ℕ
  caches : OrderedMap String (List ε)
  refsDirs : List String
  refs : OrderedMap (String × String) ℕ
  links : OrderedMap String String
  leaves : List (Leaf ε)

inductive Action where
  | tick (seconds : ℕ)
  | start (sessionId digest : String)
  /-- The next command of a leaf -/
  | run (k : ℕ)
  /-- `rm -rf` takes a file away -/
  | remove (k i : ℕ)
  /-- The archive cannot be extracted -/
  | fail (k : ℕ)
  /-- The script of a leaf is killed, and its harness notices or is no more -/
  | kill (k : ℕ) (survives : Bool)
deriving DecidableEq, Repr

variable {ε : Type}

def World.setLeaf (w : World ε) (k : ℕ) (leaf : Leaf ε) : World ε :=
  { w with leaves := w.leaves.set k leaf }

/-- A leaf goes on. -/
def World.go (w : World ε) (k : ℕ) (leaf : Leaf ε) (pc : Pc) : World ε :=
  w.setLeaf k { leaf with pc := pc }

/-- `flock 9` waits for the lock. -/
def World.take (w : World ε) (k : ℕ) (leaf : Leaf ε) (pc : Pc) : Option (World ε) :=
  match w.lock with
  | some _ => none
  | none => some { w.go k leaf pc with lock := some k }

/-- The lock is free when its file is closed. -/
def World.release (w : World ε) (k : ℕ) (leaf : Leaf ε) (pc : Pc) : World ε :=
  { w.go k leaf pc with lock := none }

/-- The refs of a digest that are not too old. -/
def World.sweep (w : World ε) (digest : String) : World ε :=
  { w with refs := w.refs.filter fun key time => key.1 ≠ digest || w.now ≤ time + refStale }

/-- `ls -A "$REFS"` shows nothing. -/
def World.noRefs (w : World ε) (digest : String) : Bool :=
  w.refs.keys.all fun key => key.1 ≠ digest

/-- What happens after a script was killed. The harness goes on with its cleanup, if that was not
it. -/
def Pc.afterKill : Pc → Pc
  | .cleanupUnlink => .finished
  | .cleanupLock => .finished
  | .cleanupRef => .finished
  | .cleanupSweep => .finished
  | .cleanupTest => .finished
  | .cleanupChmod => .finished
  | .cleanupRemove => .finished
  | .cleanupRmdir => .finished
  | .cleaned => .finished
  | _ => .cleanupUnlink

def Pc.over : Pc → Bool
  | .finished => true
  | .gone => true
  | _ => false

/-- The next command of a leaf, where it succeeds or is allowed to fail.
SRCLINE: config-overlay.ts:84-103 -/
def acquire (w : World ε) (k : ℕ) (leaf : Leaf ε) : Pc → Option (World ε)
  | .acquireLock => w.take k leaf .acquireMkdir
  | .acquireMkdir =>
    some { w.go k leaf .acquireSweep with refsDirs := leaf.digest :: w.refsDirs }
  | .acquireSweep => some ((w.sweep leaf.digest).go k leaf .acquireRef)
  | .acquireRef =>
    if leaf.digest ∈ w.refsDirs then
      some { w.go k leaf .acquireTest with refs := w.refs.set (leaf.digest, leaf.sessionId) w.now }
    else some (w.go k leaf .failing)
  | .acquireTest => some (w.go k leaf (.acquired (w.caches.has leaf.digest)))
  | .acquired hit => some (w.release k leaf (if hit then .bindLink else .populateLock))
  | _ => none

/-- SRCLINE: config-overlay.ts:110-153 -/
def populate (bundle : String → List ε) (w : World ε) (k : ℕ) (leaf : Leaf ε) :
    Pc → Option (World ε)
  | .populateLock => w.take k leaf .populateTest
  | .populateTest =>
    some (w.go k leaf (if w.caches.has leaf.digest then .populated else .populateStage))
  | .populateStage => some (w.setLeaf k { leaf with pc := .populateExtract, staging := [] })
  | .populateExtract =>
    match (bundle leaf.digest)[leaf.staging.length]? with
    | some file => some (w.setLeaf k { leaf with staging := leaf.staging ++ [file] })
    | none => some (w.go k leaf .populateScripts)
  | .populateScripts => some (w.go k leaf .populateSeal)
  | .populateSeal => some (w.go k leaf .populateMove)
  | .populateMove =>
    -- The directory is not there since the test: `mv` gives the staged tree its name.
    some { w.go k leaf .populated with caches := w.caches.set leaf.digest leaf.staging }
  | .populated => some (w.release k leaf .bindLink)
  | .failing => some (w.release k leaf .cleanupUnlink)
  | _ => none

/-- SRCLINE: config-overlay.ts:179-202 -/
def cleanup (w : World ε) (k : ℕ) (leaf : Leaf ε) : Pc → Option (World ε)
  | .cleanupUnlink => some { w.go k leaf .cleanupLock with links := w.links.erase leaf.sessionId }
  | .cleanupLock => w.take k leaf .cleanupRef
  | .cleanupRef =>
    some { w.go k leaf .cleanupSweep with refs := w.refs.erase (leaf.digest, leaf.sessionId) }
  | .cleanupSweep => some ((w.sweep leaf.digest).go k leaf .cleanupTest)
  | .cleanupTest => some (w.go k leaf (if w.noRefs leaf.digest then .cleanupChmod else .cleaned))
  | .cleanupChmod => some (w.go k leaf .cleanupRemove)
  | .cleanupRemove =>
    -- The directory itself is removed when it is empty.
    if (w.caches.get leaf.digest).getD [] matches [] then
      some { w.go k leaf .cleanupRmdir with caches := w.caches.erase leaf.digest }
    else none
  | .cleanupRmdir =>
    some { w.go k leaf .cleaned with
      refsDirs := if w.noRefs leaf.digest then w.refsDirs.filter (· ≠ leaf.digest) else w.refsDirs }
  | .cleaned => some (w.release k leaf .finished)
  | _ => none

/-- The scripts one after the other, and between them the turn.
SRCLINE: config-overlay.ts:156-165, 222-235, run-leaf.ts:480-576 -/
def execute (bundle : String → List ε) (w : World ε) (k : ℕ) (leaf : Leaf ε) (pc : Pc) :
    Option (World ε) :=
  match pc with
  | .bindLink => some { w.go k leaf .running with links := w.links.set leaf.sessionId leaf.digest }
  | .running => some (w.go k leaf .cleanupUnlink)
  | pc => ((acquire w k leaf pc).or (populate bundle w k leaf pc)).or (cleanup w k leaf pc)

def step (bundle : String → List ε) (w : World ε) : Action → Option (World ε)
  | .tick seconds => some { w with now := w.now + seconds }
  | .start sessionId digest =>
    if safeSessionId sessionId && ConfigBundle.validDigest digest then
      some { w with leaves := w.leaves ++ [⟨sessionId, digest, w.now, .acquireLock, []⟩] }
    else none
  | .run k => (w.leaves[k]?).bind fun leaf => execute bundle w k leaf leaf.pc
  | .remove k i =>
    (w.leaves[k]?).bind fun leaf =>
      if leaf.pc = .cleanupRemove then
        (w.caches.get leaf.digest).bind fun files =>
          if i < files.length then
            some { w with caches := w.caches.set leaf.digest (files.eraseIdx i) }
          else none
      else none
  | .fail k =>
    (w.leaves[k]?).bind fun leaf =>
      if leaf.pc = .populateExtract then some (w.go k leaf .failing) else none
  | .kill k survives =>
    (w.leaves[k]?).bind fun leaf =>
      if leaf.pc.over then none
      else
        some { w.go k leaf (if survives then leaf.pc.afterKill else .gone) with
          lock := if w.lock = some k then none else w.lock }

def World.initial (w : World ε) : Prop :=
  w = ⟨0, none, OrderedMap.empty, [], OrderedMap.empty, OrderedMap.empty, []⟩

end ServerlessHarness.ConfigOverlay
