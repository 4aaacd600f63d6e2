import ServerlessHarness.Interface.RemoteWorker.Steps
import ServerlessHarness.Library.Crew

/-!
# Where an answer comes from

An exec that shares the answer of another one, because it was coalesced into it or answered from
the cache, has its request id and its fingerprint. What is in the cache is the terminal frame of an
exec that was received and run before, on this connection or an earlier one (`Ran`), and came to a
status or to a timeout.
-/

set_option autoImplicit false

namespace ServerlessHarness.RemoteWorker

open Library Protocol

variable {e : Exec} {n : ℕ}

section Fates

/-- The frame that is put into the cache for an exec that was run; `ran` says with which results
and how many bytes of output dropped an exec was. -/
def Cached (ran : Exec → RunResult → ℕ → Prop) (e : Exec) (frame : Frame) : Prop :=
  ∃ result dropped, ran e result dropped ∧ conclude e result dropped = (frame, true)

variable {Digest : Type} (sha256 : List UInt8 → Digest) (ran : Exec → RunResult → ℕ → Prop)

/-- The execs have the same request id and the same fingerprint. -/
def Alike (e e' : Exec) : Prop := e.reqId = e'.reqId ∧ fingerprint sha256 e = fingerprint sha256 e'

def CacheSound (cache : Cache Digest) : Prop :=
  ∀ reqId entry, cache.items.get reqId = some entry →
    entry.exec.reqId = reqId ∧ entry.fingerprint = fingerprint sha256 entry.exec ∧
      Cached ran entry.exec entry.frame

/-- What is known of the exec whose answer an exec shares. -/
def Traced (received : List Received) (n : ℕ) (r : Received) : Prop :=
  (∀ other, r.fate = .coalesced other →
    ∃ r', received[other]? = some r' ∧ other < n ∧ Alike sha256 r'.exec r.exec) ∧
  ∀ source frame, r.fate = .replayed source frame → Alike sha256 source r.exec ∧
    Cached ran source frame

def AllTraced (received : List Received) : Prop :=
  ∀ n r, received[n]? = some r → Traced sha256 ran received n r

/-- How a fate may change in one step: not at all, or it is decided. `runs` says which runs an exec
may be given. -/
def FateStep (runs : ℕ → Run → Prop) (n : ℕ) (fate fate' : Fate) : Prop :=
  fate' = fate ∨ fate' = .refused ∨ fate' = .skipped ∨ ∃ run, fate' = .ran run ∧ runs n run

/-- What happens to the records in one step: their execs stay, and one fate may be decided. -/
def Revised (runs : ℕ → Run → Prop) (received received' : List Received) : Prop :=
  ∃ n g, received' = received.modify n g ∧
    ∀ r, (g r).exec = r.exec ∧ FateStep runs n r.fate (g r).fate

variable {runs : ℕ → Run → Prop}

theorem Revised.refl (received : List Received) : Revised runs received received :=
  ⟨0, id, (List.modify_id 0 received).symm, fun _ => ⟨rfl, Or.inl rfl⟩⟩

variable {sha256 ran} {received received' : List Received}

theorem Revised.exec_of_get (h : Revised runs received received') {r' : Received}
    (hr' : received'[n]? = some r') :
    ∃ r, received[n]? = some r ∧ r'.exec = r.exec ∧ FateStep runs n r.fate r'.fate := by
  obtain ⟨k, g, rfl, hg⟩ := h
  rcases slot_of_modify hr' with ⟨hk, r, hr, heq⟩ | ⟨_, hr⟩
  · rw [← heq, ← hk]
    exact ⟨r, hk ▸ hr, (hg r).1, (hg r).2⟩
  · exact ⟨r', hr, rfl, Or.inl rfl⟩

theorem Revised.get_of_exec (h : Revised runs received received') {r : Received}
    (hr : received[n]? = some r) : ∃ r', received'[n]? = some r' ∧ r'.exec = r.exec := by
  obtain ⟨k, g, rfl, hg⟩ := h
  by_cases hk : k = n
  · subst hk
    exact ⟨g r, slot_modify_self hr, (hg r).1⟩
  · refine ⟨r, ?_, rfl⟩
    rw [slot_modify_ne hk]
    exact hr

theorem AllTraced.revised (h : AllTraced sha256 ran received)
    (hrev : Revised runs received received') :
    AllTraced sha256 ran received' := by
  intro n r' hr'
  obtain ⟨r, hr, hexec, hfate⟩ := hrev.exec_of_get hr'
  obtain ⟨hcoalesced, hreplayed⟩ := h n r hr
  rcases hfate with hsame | hdecided
  · unfold Traced
    rw [hsame, hexec]
    refine ⟨?_, hreplayed⟩
    intro other hother
    obtain ⟨r₁, hr₁, hlt, halike⟩ := hcoalesced other hother
    obtain ⟨r₂, hr₂, hexec₂⟩ := hrev.get_of_exec hr₁
    refine ⟨r₂, hr₂, hlt, ?_⟩
    rw [hexec₂]
    exact halike
  · constructor
    · intro other hother
      rw [hother] at hdecided
      rcases hdecided with heq | heq | ⟨run, heq, _⟩
      · cases heq
      · cases heq
      · cases heq
    · intro source frame hsource
      rw [hsource] at hdecided
      rcases hdecided with heq | heq | ⟨run, heq, _⟩
      · cases heq
      · cases heq
      · cases heq

theorem AllTraced.append (h : AllTraced sha256 ran received) {r : Received}
    (hr : Traced sha256 ran received received.length r) :
      AllTraced sha256 ran (received ++ [r]) := by
  intro n r₁ hr₁
  have hmono : Traced sha256 ran received n r₁ → Traced sha256 ran (received ++ [r]) n r₁ := by
    intro htraced
    refine ⟨?_, htraced.2⟩
    intro other hother
    obtain ⟨r', hr', hlt, halike⟩ := htraced.1 other hother
    exact ⟨r', slot_append hr' [r], hlt, halike⟩
  rcases slot_of_append hr₁ with hbefore | ⟨hlen, heq⟩
  · exact hmono (h n r₁ hbefore)
  · refine hmono ?_
    rw [← heq, hlen]
    exact hr

variable {ran' : Exec → RunResult → ℕ → Prop}

theorem Cached.mono (hran : ∀ e result dropped, ran e result dropped → ran' e result dropped)
    {frame : Frame} (h : Cached ran e frame) : Cached ran' e frame := by
  obtain ⟨result, dropped, hknown, heq⟩ := h
  exact ⟨result, dropped, hran _ _ _ hknown, heq⟩

theorem CacheSound.mono (hran : ∀ e result dropped, ran e result dropped → ran' e result dropped)
    {cache : Cache Digest} (h : CacheSound sha256 ran cache) : CacheSound sha256 ran' cache := by
  intro reqId entry hentry
  obtain ⟨hreqId, hfp, hcached⟩ := h reqId entry hentry
  exact ⟨hreqId, hfp, hcached.mono hran⟩

theorem AllTraced.mono (hran : ∀ e result dropped, ran e result dropped → ran' e result dropped)
    (h : AllTraced sha256 ran received) : AllTraced sha256 ran' received := by
  intro n r hr
  obtain ⟨hcoalesced, hreplayed⟩ := h n r hr
  refine ⟨hcoalesced, fun source frame hfate => ?_⟩
  obtain ⟨halike, hcached⟩ := hreplayed source frame hfate
  exact ⟨halike, hcached.mono hran⟩

theorem Books.received_of_mem_flight {c : Conn Digest} (hb : Books sha256 c) {m : Message}
    (hm : m ∈ c.flight) : ∃ r, c.received[m.number]? = some r ∧ r.exec = m.exec := by
  obtain ⟨⟨n, h⟩, hin, hfly⟩ := List.mem_filterMap.mp hm
  unfold flying at hfly
  obtain ⟨_, heq⟩ := Option.ite_none_right_eq_some.mp hfly
  cases heq
  obtain ⟨r, hr, hlaw⟩ := hb.custody.held n h hin
  exact ⟨r, hr, hlaw.exec h rfl⟩

/-! ## The records in a step -/

section Steps

variable {cfg : Config} {c c' : Conn Digest} {w : ℕ}

theorem revised_note {fate : Fate}
    (h : fate = .refused ∨ fate = .skipped ∨ ∃ run, fate = .ran run ∧ runs n run) :
    Revised runs c.received (c.note n fate).received :=
  ⟨n, _, rfl, fun _ => ⟨rfl, Or.inr h⟩⟩

theorem revised_lose (c : Conn Digest) (n : ℕ) : Revised runs c.received (c.lose n).received :=
  ⟨n, _, rfl, fun _ => ⟨rfl, Or.inl rfl⟩⟩

theorem received_enqueued {out : OutFrame} {stage : Stage} {o : Option Stage}
    (h : Enqueued c out stage c' o) : c'.received = c.received := by
  cases h <;> rfl

/-- INTERNAL: **what happens to the records in one step**: a connection starts without any, an exec
is received, or they are revised. -/
theorem received_step [DecidableEq Digest] {s t : Session Digest} {a : Action}
    (h : sessionStep sha256 cfg s a = some t) :
    a = .connect ∧ t.conn.received = [] ∨
      (∃ e, a = .exec e ∧ t.conn = s.conn.decided sha256 e (s.claim sha256 e).1) ∨
      Revised
        (fun n run => ∃ w m i, a = .start w run ∧ s.conn.pool[w]? = some (.admitted m i) ∧
          m.number = n)
        s.conn.received t.conn.received := by
  cases step_moves h with
  | connect => exact Or.inl ⟨rfl, rfl⟩
  | exec e _ => exact Or.inr (Or.inl ⟨e, rfl, rfl⟩)
  | overflow m frame _ => exact Or.inr (Or.inr (revised_lose s.conn m.number))
  | refuse m _ =>
    exact Or.inr (Or.inr (revised_note (c := s.conn.remove m.exec.reqId) (Or.inl rfl)))
  | skip w m i _ => exact Or.inr (Or.inr (revised_note (c := s.conn) (Or.inr (Or.inl rfl))))
  | start w run m i hpc =>
    refine Or.inr (Or.inr (revised_note (c := s.conn) (Or.inr (Or.inr ⟨run, rfl, ?_⟩))))
    exact ⟨w, m, i, rfl, hpc, rfl⟩
  | giveUp w m stage frame after _ _ => exact Or.inr (Or.inr (revised_lose s.conn m.number))
  | enqueue w m stage frame after c o _ henqueued =>
    refine Or.inr (Or.inr ?_)
    show Revised _ s.conn.received c.received
    rw [received_enqueued henqueued]
    exact .refl _
  | beat stage c o _ henqueued =>
    refine Or.inr (Or.inr ?_)
    show Revised _ s.conn.received c.received
    rw [received_enqueued henqueued]
    exact .refl _
  | _ => exact Or.inr (Or.inr (.refl _))

end Steps

/-! ## The cache in a step -/

section CacheSteps

variable {cfg : Config} {s t : Session Digest} {a : Action}

theorem CacheSound.put {cache : Cache Digest} (h : CacheSound sha256 ran cache) {frame : Frame}
    (hcached : Cached ran e frame) :
    CacheSound sha256 ran (cache.put e.reqId ⟨fingerprint sha256 e, frame, e⟩) := by
  intro reqId entry hentry
  rcases get_put hentry with ⟨rfl, rfl⟩ | hbefore
  · exact ⟨rfl, rfl, hcached⟩
  · exact h reqId entry hbefore

variable [DecidableEq Digest]

theorem items_claim (s : Session Digest) (e : Exec) :
    (s.claim sha256 e).2.items = s.cache.items := by
  have hlookup := items_lookup s.cache e.reqId (fingerprint sha256 e)
  unfold Session.claim
  split
  · rfl
  · split
    · rename_i heq
      rw [heq] at hlookup
      exact hlookup
    · rename_i heq
      rw [heq] at hlookup
      exact hlookup
    · rename_i heq
      rw [heq] at hlookup
      exact hlookup

theorem claim_coalesced {slot : Slot Digest} (h : (s.claim sha256 e).1 = .coalesced slot) :
    s.conn.slotFor e.reqId = some slot ∧ slot.fp = fingerprint sha256 e := by
  unfold Session.claim at h
  split at h
  · rename_i running hslot
    dsimp only at h
    split at h
    · rename_i hfp
      cases h
      exact ⟨hslot, hfp⟩
    · cases h
  · split at h
    · cases h
    · cases h
    · cases h

theorem claim_cacheHit {entry : Entry Digest} (h : (s.claim sha256 e).1 = .cacheHit entry) :
    s.cache.items.get e.reqId = some entry ∧ entry.fingerprint = fingerprint sha256 e := by
  unfold Session.claim at h
  split at h
  · dsimp only at h
    split at h
    · cases h
    · cases h
  · split at h
    · rename_i found cache hlookup
      cases h
      refine lookup_hit ?_
      rw [hlookup]
    · cases h
    · cases h

/-- The run that a member of the pool is in, which queues a frame in between. -/
def PoolPc.run? : PoolPc → Option (Message × Running)
  | running m r => some (m, r)
  | enqueueing m _ _ (.run r) => some (m, r)
  | _ => none

/-- The pool runs what is known to be run. -/
def PoolSound (ran : Exec → RunResult → ℕ → Prop) (pool : List PoolPc) : Prop :=
  ∀ pc ∈ pool, ∀ m r, pc.run? = some (m, r) → ran m.exec r.result (r.dropped + cutBy r.calls)

theorem CacheSound.step (hcache : CacheSound sha256 ran s.cache) (hpool : PoolSound ran s.conn.pool)
    (h : sessionStep sha256 cfg s a = some t) : CacheSound sha256 ran t.cache := by
  cases step_moves h with
  | exec e _ =>
    unfold CacheSound Session.accept
    rw [items_claim]
    exact hcache
  | conclude w m r pc calls =>
    have hran := hpool _ (List.mem_of_getElem? pc) m r rfl
    rw [calls, cutBy, Nat.add_zero] at hran
    unfold Session.concludeStep
    cases hconclude : conclude m.exec r.result r.dropped with
    | mk frame cacheable =>
    cases cacheable with
    | false => exact hcache
    | true => exact hcache.put ⟨r.result, r.dropped, hran, hconclude⟩
  | _ => exact hcache

theorem PoolSound.set {pool : List PoolPc} (h : PoolSound ran pool) {w : ℕ} {pc : PoolPc}
    (hpc : ∀ m r, pc.run? = some (m, r) → ran m.exec r.result (r.dropped + cutBy r.calls)) :
    PoolSound ran (pool.set w pc) :=
  forall_mem_set h hpc

/-- INTERNAL: **a run goes on with its result**, and what it drops is counted. -/
theorem PoolSound.step (hpool : PoolSound ran s.conn.pool)
    (hstart : ∀ w run m i, a = .start w run → s.conn.pool[w]? = some (.admitted m i) →
      ran m.exec run.result (cutBy run.calls))
    (h : sessionStep sha256 cfg s a = some t) : PoolSound ran t.conn.pool := by
  -- what a member goes on with after a frame is what it was in before
  have hafter : ∀ {w : ℕ} {m : Message} {stage : Stage} {frame : Frame} {after : After},
      s.conn.pool[w]? = some (.enqueueing m stage frame after) →
      ∀ m' r, (after.pc m).run? = some (m', r) →
        ran m'.exec r.result (r.dropped + cutBy r.calls) := by
    intro w m stage frame after pc m' r hrun
    cases after with
    | run r' => exact hpool _ (List.mem_of_getElem? pc) m' r hrun
    | finish => cases hrun
  cases step_moves h with
  | connect =>
    intro pc hpc m r hrun
    rw [List.eq_of_mem_replicate hpc] at hrun
    cases hrun
  | exec e _ =>
    show PoolSound ran (s.conn.decided sha256 e (s.claim sha256 e).1).pool
    cases (s.claim sha256 e).1 <;> exact hpool
  | dequeue | exit | vanished | found | skip | finish | conclude => exact hpool.set nofun
  | start w run m i pc =>
    refine hpool.set ?_
    rintro m' r ⟨⟩
    rw [Nat.zero_add]
    exact hstart w run m i rfl pc
  | chunk w m r stream data rest pc calls =>
    refine hpool.set ?_
    rintro m' r' ⟨⟩
    have hran := hpool _ (List.mem_of_getElem? pc) m r rfl
    rwa [calls, cutBy, SinkCall.cut, Nat.zero_add] at hran
  | dropped w m r stream n rest pc calls =>
    refine hpool.set ?_
    rintro m' r' ⟨⟩
    have hran := hpool _ (List.mem_of_getElem? pc) m r rfl
    rwa [calls, cutBy, ← Nat.add_assoc] at hran
  | enqueue w m stage frame after c o pc henqueued =>
    have hsame : c.pool = s.conn.pool := by cases henqueued <;> rfl
    show PoolSound ran (c.pool.set w _)
    rw [hsame]
    refine hpool.set ?_
    cases o with
    | none => exact hafter pc
    | some stage' =>
      intro m' r hrun
      cases after with
      | run r' => exact hpool _ (List.mem_of_getElem? pc) m' r hrun
      | finish => cases hrun
  | giveUp w m stage frame after pc _ => exact hpool.set (hafter pc)
  | beat stage c o _ henqueued =>
    show PoolSound ran c.pool
    cases henqueued <;> exact hpool
  | _ => exact hpool

/-! ## Runs -/

theorem Books.coalesced (hb : Books sha256 s.conn) {slot : Slot Digest}
    (h : (s.claim sha256 e).1 = .coalesced slot) :
    slot.message ∈ s.conn.flight ∧ Alike sha256 slot.message.exec e := by
  obtain ⟨hslot, hfp⟩ := claim_coalesced h
  obtain ⟨i, hget, hi⟩ := Option.bind_eq_some_iff.mp hslot
  obtain ⟨m, hm, hkey, slot', hslot', hmessage, hfp'⟩ := hb.registry.cell_of_get hget
  rw [hi] at hslot'
  cases hslot'
  rw [hmessage]
  exact ⟨hm, hkey, hfp'.symm.trans hfp⟩

theorem traced_decided (hb : Books sha256 s.conn) (hcache : CacheSound sha256 ran s.cache)
    (hall : AllTraced sha256 ran s.conn.received) (e : Exec) :
    AllTraced sha256 ran (s.conn.decided sha256 e (s.claim sha256 e).1).received := by
  cases hclaim : (s.claim sha256 e).1 with
  | coalesced slot =>
    refine hall.append ⟨?_, fun source frame h => (nomatch h)⟩
    intro other hother
    cases hother
    obtain ⟨hflight, halike⟩ := hb.coalesced hclaim
    obtain ⟨r, hr, hexec⟩ := hb.received_of_mem_flight hflight
    refine ⟨r, hr, lt_of_slot hr, ?_⟩
    rw [hexec]
    exact halike
  | collision | admitted =>
    exact hall.append ⟨fun other h => (nomatch h), fun source frame h => (nomatch h)⟩
  | cacheHit entry =>
    refine hall.append ⟨fun other h => (nomatch h), ?_⟩
    intro source frame hsource
    cases hsource
    obtain ⟨hget, hfp⟩ := claim_cacheHit hclaim
    obtain ⟨hreqId, hfp', hcached⟩ := hcache e.reqId entry hget
    exact ⟨⟨hreqId, hfp'.symm.trans hfp⟩, hcached⟩

/-- The exec was received and run, in this state of a run of the worker or in an earlier one. -/
def Ran (sha256 : List UInt8 → Digest) (cfg : Config) (s : Session Digest) (e : Exec)
    (result : RunResult) (dropped : ℕ) : Prop :=
  ∃ (t : Session Digest) (n : ℕ) (r : Received) (run : Run),
    Reachable (sessionSystem sha256 cfg) t ∧
    Relation.ReflTransGen (sessionSystem sha256 cfg).next t s ∧ t.conn.received[n]? = some r ∧
    r.exec = e ∧ r.fate = .ran run ∧ run.result = result ∧ cutBy run.calls = dropped

theorem Ran.step {result : RunResult} {dropped : ℕ} (h : Ran sha256 cfg s e result dropped)
    (hst : (sessionSystem sha256 cfg).next s t) : Ran sha256 cfg t e result dropped := by
  obtain ⟨u, n, r, run, hu, hpath, hrest⟩ := h
  exact ⟨u, n, r, run, hu, hpath.tail hst, hrest⟩

/-- A command that is started is one that was received. -/
theorem ran_of_start {w : ℕ} {run : Run} {m : Message} {i : ℕ}
    (hs : Reachable (sessionSystem sha256 cfg) s)
      (hst : sessionStep sha256 cfg s (.start w run) = some t)
    (hpc : s.conn.pool[w]? = some (.admitted m i)) :
    Ran sha256 cfg t m.exec run.result (cutBy run.calls) := by
  obtain ⟨r, hr, hexec⟩ := (books_of_reachable hs).received_of_mem_flight
    (mem_flight_of_waiting hpc rfl)
  refine ⟨t, m.number, { r with fate := .ran run }, run, .step hs ⟨_, hst⟩, .refl, ?_, hexec, rfl,
    rfl, rfl⟩
  cases step_moves hst with
  | start _ _ m' i' hpc' =>
    cases hpc.symm.trans hpc'
    exact slot_modify_self hr

/-- INTERNAL: **whose answer an exec shares is alike**, in any run, and what the cache answers with
is the end of an exec that was run. -/
theorem traced_of_reachable (h : Reachable (sessionSystem sha256 cfg) s) :
    CacheSound sha256 (Ran sha256 cfg s) s.cache ∧
      AllTraced sha256 (Ran sha256 cfg s) s.conn.received := by
  suffices hall : CacheSound sha256 (Ran sha256 cfg s) s.cache ∧
      AllTraced sha256 (Ran sha256 cfg s) s.conn.received ∧
        PoolSound (Ran sha256 cfg s) s.conn.pool from
    ⟨hall.1, hall.2.1⟩
  induction h with
  | init hs =>
    cases hs
    exact ⟨fun reqId entry hentry => (nomatch hentry), fun n r hr => (nomatch hr), nofun⟩
  | @step s t hs hst ih =>
    have hran : ∀ e result dropped, Ran sha256 cfg s e result dropped →
        Ran sha256 cfg t e result dropped :=
      fun e result dropped hran => hran.step hst
    obtain ⟨hcache, hall, hpool⟩ := ih
    replace hcache := hcache.mono hran
    replace hall := hall.mono hran
    replace hpool : PoolSound (Ran sha256 cfg t) s.conn.pool :=
      fun pc hpc m r hrun => hran _ _ _ (hpool pc hpc m r hrun)
    obtain ⟨a, ha⟩ := hst
    refine ⟨hcache.step hpool ha, ?_, hpool.step ?_ ha⟩
    · rcases received_step ha with ⟨_, hnil⟩ | ⟨e, _, hdecided⟩ | hrevised
      · rw [hnil]
        exact fun n r hr => (nomatch hr)
      · rw [hdecided]
        exact traced_decided (books_of_reachable hs) hcache hall e
      · exact hall.revised hrevised
    · rintro w run m i rfl hpc
      exact ran_of_start hs ha hpc

end CacheSteps

end Fates

/-- A digest without collisions, for runs on fixed inputs. -/
def plainDigest : List UInt8 → List UInt8 := id

/-- A worker that runs one exec at a time. -/
def workerConfig : Config := ⟨"sbx", ["exec"], 1⟩

theorem plainDigest_injective : Function.Injective plainDigest := Function.injective_id

end ServerlessHarness.RemoteWorker
