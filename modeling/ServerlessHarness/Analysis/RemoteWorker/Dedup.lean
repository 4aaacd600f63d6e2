import ServerlessHarness.Interface.RemoteWorker.Fates

/-!
# Which execs share an answer

The fingerprint tells apart any two execs that differ in command, standard input, timeout or
delivery mode, so only execs that agree in these share an answer. It does not cover the workspace
key, by which the microVM runner chooses the workspace that a command runs in: an exec shares the
answer of another one that differs from it in nothing but its workspace.
-/

set_option autoImplicit false

namespace ServerlessHarness.RemoteWorker

open Library Protocol

/-- The sizes of an exec that was received: `timeout_s` is a `uint32`, and a length fits a word. -/
structure OnWire (e : Exec) : Prop where
  command : (bytesOf e.command).length < span 8
  stdin : e.stdin.length < span 8
  timeoutS : e.timeoutS < span 4

section Dedup

variable {Digest : Type}

/-- `e₂` was received, and it was coalesced into `e₁` or answered from the entry that was put into
the cache for `e₁`. -/
def Conn.SharesAnswer (c : Conn Digest) (e₁ e₂ : Exec) : Prop :=
  ∃ (n : ℕ) (r : Received), c.received[n]? = some r ∧ r.exec = e₂ ∧
    ((∃ (other : ℕ) (r' : Received),
        r.fate = .coalesced other ∧ c.received[other]? = some r' ∧ r'.exec = e₁) ∨
      ∃ frame, r.fate = .replayed e₁ frame)

theorem bytesOf_inj {a b : String} (h : bytesOf a = bytesOf b) : a = b := by
  have hdata : a.toUTF8.data = b.toUTF8.data := Array.toList_inj.mp h
  exact String.toByteArray_inj.mp (ByteArray.ext hdata)

/-- INTERNAL: **what is hashed determines the four fields**. -/
theorem fingerprintInput_inj {e e' : Exec} (h : OnWire e) (h' : OnWire e')
    (heq : fingerprintInput e.command e.stdin e.timeoutS e.streaming =
      fingerprintInput e'.command e'.stdin e'.timeoutS e'.streaming) :
    e.command = e'.command ∧ e.stdin = e'.stdin ∧ e.timeoutS = e'.timeoutS ∧
      e.streaming = e'.streaming := by
  unfold fingerprintInput at heq
  obtain ⟨hcommand, hrest⟩ := framed_append_inj h.command h'.command heq
  obtain ⟨hstdin, hrest'⟩ := framed_append_inj h.stdin h'.stdin hrest
  obtain ⟨htimeout, hstreaming⟩ := List.append_inj' hrest' rfl
  have hwide : ∀ n, n < span 4 → n < span 8 := by
    intro n hn
    exact Nat.lt_of_lt_of_le hn (by decide)
  refine ⟨bytesOf_inj hcommand, hstdin, ?_, ?_⟩
  · exact bigEndian_inj (hwide _ h.timeoutS) (hwide _ h'.timeoutS) htimeout
  · have hbyte := List.singleton_inj.mp hstreaming
    cases hs : e.streaming with
    | true =>
      cases hs' : e'.streaming with
      | true => rfl
      | false =>
        rw [hs, hs'] at hbyte
        exact absurd hbyte (by decide)
    | false =>
      cases hs' : e'.streaming with
      | true =>
        rw [hs, hs'] at hbyte
        exact absurd hbyte (by decide)
      | false => rfl

variable [DecidableEq Digest] {sha256 : List UInt8 → Digest} {cfg : Config} {s : Session Digest}
  {e₁ e₂ : Exec}

theorem alike_of_sharesAnswer (h : Reachable (sessionSystem sha256 cfg) s)
    (hshare : s.conn.SharesAnswer e₁ e₂) : Alike sha256 e₁ e₂ := by
  obtain ⟨n, r, hr, rfl, hfate⟩ := hshare
  obtain ⟨hcoalesced, hreplayed⟩ := (traced_of_reachable h).2 n r hr
  rcases hfate with ⟨other, r', hother, hr', rfl⟩ | ⟨frame, hframe⟩
  · obtain ⟨r'', hr'', _, halike⟩ := hcoalesced other hother
    rw [hr'] at hr''
    cases hr''
    exact halike
  · exact (hreplayed e₁ frame hframe).1

theorem exists_sharesAnswer (cfg : Config) (halike : Alike sha256 e₁ e₂) :
    ∃ s, Reachable (sessionSystem sha256 cfg) s ∧ s.conn.SharesAnswer e₁ e₂ := by
  obtain ⟨hreqId, hfp⟩ := halike
  -- the state in which the first exec is queued
  let c₀ : Conn Digest := .fresh cfg
  let c₁ : Conn Digest := c₀.decided sha256 e₁ .admitted
  let c₂ : Conn Digest := { c₁ with queue := [⟨0, e₁⟩], recv := .reading }
  let s₀ : Session Digest := ⟨newCache cacheSize, c₀⟩
  let s₂ : Session Digest := ⟨newCache cacheSize, c₂⟩
  have h₀ : Reachable (sessionSystem sha256 cfg) s₀ := .step (.init rfl) ⟨.connect, rfl⟩
  have h₁ : Reachable (sessionSystem sha256 cfg) (⟨newCache cacheSize, c₁⟩ : Session Digest) :=
    .step h₀ ⟨.exec e₁, rfl⟩
  have h₂ : Reachable (sessionSystem sha256 cfg) s₂ := .step h₁ ⟨.reply, rfl⟩
  have hslot : c₂.slotFor e₂.reqId = some ⟨fingerprint sha256 e₁, false, ⟨0, e₁⟩⟩ := by
    have hget : c₂.inflight.get e₂.reqId = some 0 := by
      rw [← hreqId]
      exact OrderedMap.get_set_self
    unfold Conn.slotFor
    rw [hget]
    rfl
  have hclaim : s₂.claim sha256 e₂ =
      (.coalesced ⟨fingerprint sha256 e₁, false, ⟨0, e₁⟩⟩, newCache cacheSize) := by
    unfold Session.claim
    rw [hslot]
    dsimp only
    rw [if_pos hfp]
  have h₃ : Reachable (sessionSystem sha256 cfg) (s₂.accept sha256 e₂) :=
    .step h₂ ⟨.exec e₂, rfl⟩
  refine ⟨s₂.accept sha256 e₂, h₃, ?_⟩
  unfold Session.accept
  rw [hclaim]
  exact ⟨1, ⟨e₂, .coalesced 0, false⟩, rfl, rfl, Or.inl ⟨0, _, rfl, rfl, rfl⟩⟩

/-- **Two execs of which one may share the answer of the other agree in everything that determines
the result** exactly if they have the same workspace key, or differ in request id, command,
standard input, timeout or delivery mode. -/
theorem shared_answer_agrees_iff (cfg : Config) (hsha : Function.Injective sha256) (h₁ : OnWire e₁)
    (h₂ : OnWire e₂) :
    (∀ s, Reachable (sessionSystem sha256 cfg) s → s.conn.SharesAnswer e₁ e₂ →
      e₁.reqId = e₂.reqId ∧ e₁.command = e₂.command ∧ e₁.stdin = e₂.stdin ∧
        e₁.timeoutS = e₂.timeoutS ∧ e₁.streaming = e₂.streaming ∧
        e₁.workspaceKey = e₂.workspaceKey) ↔
      (e₁.workspaceKey = e₂.workspaceKey ∨ e₁.reqId ≠ e₂.reqId ∨ e₁.command ≠ e₂.command ∨
        e₁.stdin ≠ e₂.stdin ∨ e₁.timeoutS ≠ e₂.timeoutS ∨ e₁.streaming ≠ e₂.streaming) := by
  constructor
  · intro hagree
    by_contra hnot
    simp only [not_or, not_not] at hnot
    obtain ⟨hkey, hreqId, hcommand, hstdin, htimeout, hstreaming⟩ := hnot
    have halike : Alike sha256 e₁ e₂ := by
      refine ⟨hreqId, ?_⟩
      unfold fingerprint
      rw [hcommand, hstdin, htimeout, hstreaming]
    obtain ⟨s, hs, hshare⟩ := exists_sharesAnswer cfg halike
    exact hkey (hagree s hs hshare).2.2.2.2.2
  · intro hcond s hs hshare
    obtain ⟨hreqId, hfp⟩ := alike_of_sharesAnswer hs hshare
    obtain ⟨hcommand, hstdin, htimeout, hstreaming⟩ := fingerprintInput_inj h₁ h₂ (hsha hfp)
    refine ⟨hreqId, hcommand, hstdin, htimeout, hstreaming, ?_⟩
    rcases hcond with hkey | hne | hne | hne | hne | hne
    · exact hkey
    · exact absurd hreqId hne
    · exact absurd hcommand hne
    · exact absurd hstdin hne
    · exact absurd htimeout hne
    · exact absurd hstreaming hne

end Dedup

/-- An exec that lists the files of the workspace of one run. -/
def listing (workspaceKey : String) : Exec := ⟨7, "ls", [], 60, false, workspaceKey⟩

theorem onWire_listing (workspaceKey : String) : OnWire (listing workspaceKey) where
  command := by
    have hlength : (bytesOf "ls").length < span 8 := by decide +kernel
    exact hlength
  stdin := by
    have hlength : ([] : List UInt8).length < span 8 := by decide
    exact hlength
  timeoutS := by
    have hsmall : 60 < span 4 := by decide
    exact hsmall

/-- Two listings that differ in the workspace only. -/
theorem shared_answer_agrees_iff_listing :
    (∀ s, Reachable (sessionSystem plainDigest workerConfig) s →
      s.conn.SharesAnswer (listing "a") (listing "b") →
        (listing "a").reqId = (listing "b").reqId ∧ (listing "a").command = (listing "b").command ∧
        (listing "a").stdin = (listing "b").stdin ∧
          (listing "a").timeoutS = (listing "b").timeoutS ∧
        (listing "a").streaming = (listing "b").streaming ∧
        (listing "a").workspaceKey = (listing "b").workspaceKey) ↔ False := by
  rw [shared_answer_agrees_iff workerConfig plainDigest_injective (onWire_listing "a")
    (onWire_listing "b")]
  decide

/-- A command that writes nothing and succeeds. -/
def quietRun : Run := ⟨[], .exited 0⟩

/-- The exec of one run is answered with the exit status that the same command had in the workspace
of another run. -/
theorem answered_for_another_workspace :
    ∃ s, Reachable (sessionSystem plainDigest workerConfig) s ∧
      s.conn.SharesAnswer (listing "a") (listing "b") ∧
      (listing "a").workspaceKey ≠ (listing "b").workspaceKey := by
  obtain ⟨s, hs, hP⟩ := exists_session_state plainDigest workerConfig
    [.connect, .exec (listing "a"), .reply, .pool 0, .pool 0, .start 0 quietRun, .pool 0, .pool 0,
      .pool 0, .pool 0, .exec (listing "b")]
    (fun s : Session (List UInt8) => decide (s.conn.received[1]? =
      some (Received.mk (listing "b") (.replayed (listing "a") (endFrame 7 0 false)) false)))
    (by decide +kernel)
  exact ⟨s, hs, ⟨1, _, of_decide_eq_true hP, rfl, Or.inr ⟨_, rfl⟩⟩, by decide⟩

end ServerlessHarness.RemoteWorker
