import ServerlessHarness.Interface.RemoteWorker.Holders

/-!
# The books of a connection

Three facts hold at any time of any connection. Every exec that was received is with at most one
goroutine, and what was queued for it and what that goroutine still has to queue make up its
script; an exec that nobody has is answered. The execs in flight have different request ids, and
the registry lists exactly them, each with its own slot. Frames are queued for received execs only.
-/

set_option autoImplicit false

namespace ServerlessHarness.RemoteWorker

open Library Protocol

/-- What is true of an exec and of the one who has it. -/
structure Law (said : ℕ → List Frame) (ending : Bool) (n : ℕ) (r : Received) (o : Option Holding) :
    Prop where
  exec : ∀ h, o = some h → r.exec = h.exec
  owes : Owes r (said n) (o.elim (some []) Holding.todo)
  lost : r.lost = true → ending = true

variable {n : ℕ} {a : Holding} {g : Received → Received} {o : Option Holding}
  {rest : List (ℕ × Holding)}

section Books

variable {Digest : Type} (sha256 : List UInt8 → Digest)

/-- The slot `i` was made for the exec. -/
def SlotOf (slots : List (Slot Digest)) (i : ℕ) (m : Message) : Prop :=
  ∃ slot, slots[i]? = some slot ∧ slot.message = m ∧ slot.fp = fingerprint sha256 m.exec

/-- The outbound lane: frames are handed on in order until the stream fails, and a frame that is
for no exec is a hello or a heartbeat. -/
structure Lane (failed : Bool) (discarded pushed : List OutFrame) : Prop where
  order : failed = false → discarded = []
  anonymous : ∀ out ∈ pushed, out.origin = none → out.frame.isAnswer = false

structure Books (c : Conn Digest) : Prop where
  custody : Custody c.holders c.received (Law c.said c.ending)
  registry : Directory c.flight (fun m => m.exec.reqId) c.inflight (SlotOf sha256 c.slots)
  known : ∀ n, c.received.length ≤ n → c.said n = []
  lane : Lane c.failed c.discarded c.pushed

variable {sha256} {c c' : Conn Digest}

theorem Lane.push (h : Lane c.failed c.discarded c.pushed) {out : OutFrame}
    (hout : out.origin = none → out.frame.isAnswer = false) :
    Lane (c.push out).failed (c.push out).discarded (c.push out).pushed := by
  refine ⟨h.order, ?_⟩
  rw [pushed_push]
  exact forall_mem_concat h.anonymous hout

theorem SlotOf.kept {slots slots' : List (Slot Digest)} (hkept : SlotsKept slots slots') {i : ℕ}
    {m : Message} (h : SlotOf sha256 slots i m) : SlotOf sha256 slots' i m := by
  obtain ⟨slot, hslot, hmessage, hfp⟩ := h
  obtain ⟨slot', hslot', hmessage', hfp'⟩ := hkept i slot hslot
  exact ⟨slot', hslot', hmessage'.trans hmessage, hfp'.trans hfp⟩

theorem Law.weaken {said said' : ℕ → List Frame} {ending ending' : Bool} {r : Received}
    (h : Law said ending n r o) (hsaid : said' n = said n)
    (hending : ending = true → ending' = true) : Law said' ending' n r o where
  exec := h.exec
  owes := by
    rw [hsaid]
    exact h.owes
  lost hlost := hending (h.lost hlost)

/-- INTERNAL: **nothing happens to an exec**. -/
theorem Books.still (h : Books sha256 c) (hholders : c'.holders.Perm c.holders)
    (hinflight : c'.inflight = c.inflight) (hslots : SlotsKept c.slots c'.slots)
    (hreceived : c'.received = c.received) (hsaid : c'.said = c.said)
    (hending : c.ending = true → c'.ending = true)
    (hlane : Lane c'.failed c'.discarded c'.pushed) : Books sha256 c' where
  custody := by
    rw [hreceived]
    exact h.custody.mono hholders fun n r o hl => hl.weaken (congrFun hsaid n) hending
  registry := by
    rw [hinflight]
    exact h.registry.mono (hholders.filterMap flying) fun i m => SlotOf.kept hslots
  known n hn := by
    rw [hreceived] at hn
    rw [hsaid]
    exact h.known n hn
  lane := hlane

/-- INTERNAL: **an exec arrives** and is not admitted to the registry. -/
theorem Books.arrive (h : Books sha256 c) {r : Received}
    (hholders : c'.holders.Perm ((o.map (Prod.mk c.received.length)).toList ++ c.holders))
    (hgrounded : ∀ a, o = some a → a.inFlight = false) (hinflight : c'.inflight = c.inflight)
    (hslots : c'.slots = c.slots) (hreceived : c'.received = c.received ++ [r])
    (hsaid : c'.said = c.said) (hending : c'.ending = c.ending)
    (hexec : ∀ a, o = some a → r.exec = a.exec)
    (howes : Owes r [] (o.elim (some []) Holding.todo)) (hlost : r.lost = false)
    (hlane : Lane c'.failed c'.discarded c'.pushed) : Books sha256 c' where
  custody := by
    rw [hreceived, hsaid, hending]
    refine h.custody.arrive hholders ?_ fun n r o _ hl => hl
    refine ⟨hexec, ?_, ?_⟩
    · rw [h.known _ (Nat.le_refl _)]
      exact howes
    · rw [hlost]
      exact fun hfalse => nomatch hfalse
  registry := by
    rw [hinflight, hslots]
    refine h.registry.mono ?_ fun i m hm => hm
    refine (hholders.filterMap flying).trans ?_
    cases o with
    | none => exact .refl _
    | some a =>
      have hnone : flying (c.received.length, a) = none :=
        flying_of_not_inFlight _ (hgrounded a rfl)
      show (List.filterMap flying ((c.received.length, a) :: c.holders)).Perm c.flight
      rw [List.filterMap_cons_none hnone]
      exact .refl _
  known n hn := by
    rw [hreceived, List.length_append] at hn
    rw [hsaid]
    exact h.known n (Nat.le_of_add_right_le hn)
  lane := hlane

/-- INTERNAL: **an exec is admitted**: it arrives, and its request id is registered. -/
theorem Books.admitted (h : Books sha256 c) {e : Exec}
    (hholders : c'.holders.Perm ((c.received.length, ⟨e, none, true⟩) :: c.holders))
    (hunused : c.inflight.get e.reqId = none)
    (hinflight : c'.inflight = c.inflight.set e.reqId c.slots.length)
    (hslots : c'.slots =
      c.slots ++ [⟨fingerprint sha256 e, false, ⟨c.received.length, e⟩⟩])
    (hreceived : c'.received = c.received ++ [⟨e, .admitted, false⟩]) (hsaid : c'.said = c.said)
    (hending : c'.ending = c.ending)
    (hlane : Lane c'.failed c'.discarded c'.pushed) : Books sha256 c' where
  custody := by
    rw [hreceived, hsaid, hending]
    refine h.custody.arrive (o := some ⟨e, none, true⟩) hholders ?_ fun n r o _ hl => hl
    refine ⟨?_, ⟨rfl, h.known _ (Nat.le_refl _)⟩, fun hfalse => nomatch hfalse⟩
    intro a ha
    cases ha
    rfl
  registry := by
    rw [hinflight, hslots]
    refine h.registry.enter (a := ⟨c.received.length, e⟩) hunused (hholders.filterMap flying) ?_ ?_
    · exact ⟨_, List.getElem?_concat_length, rfl, rfl⟩
    · exact fun i m => SlotOf.kept (slotsKept_append _ _)
  known n hn := by
    rw [hreceived, List.length_append] at hn
    rw [hsaid]
    exact h.known n (Nat.le_of_add_right_le hn)
  lane := hlane

theorem Books.custody_move (h : Books sha256 c) (hbefore : c.holders.Perm ((n, a) :: rest))
    (hafter : c'.holders.Perm ((o.map (Prod.mk n)).toList ++ rest))
    (hreceived : c'.received = c.received.modify n g) (hsaid : ∀ j, j ≠ n → c'.said j = c.said j)
    (hending : c.ending = true → c'.ending = true)
    (hlaw : ∀ r, Law c.said c.ending n r (some a) → Law c'.said c'.ending n (g r) o) :
    Custody c'.holders c'.received (Law c'.said c'.ending) ∧
      ∀ j, c'.received.length ≤ j → c'.said j = [] := by
  have hlt : n < c.received.length := by
    refine h.custody.lt_length ?_
    rw [(hbefore.map Prod.fst).mem_iff]
    exact List.mem_cons_self
  constructor
  · rw [hreceived]
    exact h.custody.move hbefore hafter hlaw fun j r o hne hl => hl.weaken (hsaid j hne) hending
  · intro j hj
    rw [hreceived, List.length_modify] at hj
    rw [hsaid j (by omega)]
    exact h.known j hj

/-- INTERNAL: **a goroutine goes on** with an exec that stays as it is with respect to the
registry. -/
theorem Books.move (h : Books sha256 c) {b : Holding} (hbefore : c.holders.Perm ((n, a) :: rest))
    (hafter : c'.holders.Perm ((n, b) :: rest)) (hflying : flying (n, b) = flying (n, a))
    (hinflight : c'.inflight = c.inflight) (hslots : c'.slots = c.slots)
    (hreceived : c'.received = c.received.modify n g) (hsaid : ∀ j, j ≠ n → c'.said j = c.said j)
    (hending : c.ending = true → c'.ending = true)
    (hlaw : ∀ r, Law c.said c.ending n r (some a) → Law c'.said c'.ending n (g r) (some b))
    (hlane : Lane c'.failed c'.discarded c'.pushed) : Books sha256 c' := by
  obtain ⟨hcustody, hknown⟩ :=
    h.custody_move (o := some b) hbefore hafter hreceived hsaid hending hlaw
  refine ⟨hcustody, ?_, hknown, hlane⟩
  rw [hinflight, hslots]
  refine h.registry.mono ?_ fun i m hm => hm
  refine (hafter.filterMap flying).trans ?_
  refine List.Perm.trans ?_ (hbefore.filterMap flying).symm
  rw [List.filterMap_cons, List.filterMap_cons, hflying]

/-- INTERNAL: **an exec lands**: it leaves the registry, answered or about to be. -/
theorem Books.land (h : Books sha256 c) (hbefore : c.holders.Perm ((n, a) :: rest))
    (hafter : c'.holders.Perm ((o.map (Prod.mk n)).toList ++ rest)) (hflying : a.inFlight = true)
    (hgrounded : ∀ b, o = some b → b.inFlight = false)
    (hinflight : c'.inflight = c.inflight.erase a.exec.reqId)
    (hslots : SlotsKept c.slots c'.slots) (hreceived : c'.received = c.received.modify n g)
    (hsaid : ∀ j, j ≠ n → c'.said j = c.said j) (hending : c.ending = true → c'.ending = true)
    (hlaw : ∀ r, Law c.said c.ending n r (some a) → Law c'.said c'.ending n (g r) o)
    (hlane : Lane c'.failed c'.discarded c'.pushed) : Books sha256 c' := by
  obtain ⟨hcustody, hknown⟩ := h.custody_move hbefore hafter hreceived hsaid hending hlaw
  refine ⟨hcustody, ?_, hknown, hlane⟩
  have hsome : flying (n, a) = some ⟨n, a.exec⟩ := if_pos hflying
  have hflight : c'.flight.Perm (rest.filterMap flying) := by
    refine (hafter.filterMap flying).trans ?_
    cases o with
    | none => exact .refl _
    | some b =>
      have hnone : flying (n, b) = none := flying_of_not_inFlight n (hgrounded b rfl)
      show (List.filterMap flying ((n, b) :: rest)).Perm _
      rw [List.filterMap_cons_none hnone]
  have hlive : c.flight.Perm (⟨n, a.exec⟩ :: c'.flight) := by
    refine (hbefore.filterMap flying).trans ?_
    rw [List.filterMap_cons_some hsome]
    exact hflight.symm.cons _
  rw [hinflight]
  exact h.registry.leave (a := ⟨n, a.exec⟩) hlive fun i m => SlotOf.kept hslots

/-- INTERNAL: **the answer to an exec that is not in flight is queued**, or given up. -/
theorem Books.answer (h : Books sha256 c) (hbefore : c.holders.Perm ((n, a) :: rest))
    (hafter : c'.holders.Perm rest) (hgrounded : a.inFlight = false)
    (hinflight : c'.inflight = c.inflight) (hslots : c'.slots = c.slots)
    (hreceived : c'.received = c.received.modify n g) (hsaid : ∀ j, j ≠ n → c'.said j = c.said j)
    (hending : c.ending = true → c'.ending = true)
    (hlaw : ∀ r, Law c.said c.ending n r (some a) → Law c'.said c'.ending n (g r) none)
    (hlane : Lane c'.failed c'.discarded c'.pushed) : Books sha256 c' := by
  obtain ⟨hcustody, hknown⟩ :=
    h.custody_move (o := none) hbefore hafter hreceived hsaid hending hlaw
  refine ⟨hcustody, ?_, hknown, hlane⟩
  have hnone : flying (n, a) = none := flying_of_not_inFlight n hgrounded
  rw [hinflight, hslots]
  refine h.registry.mono ?_ fun i m hm => hm
  refine (hafter.filterMap flying).trans ?_
  refine List.Perm.trans ?_ (hbefore.filterMap flying).symm
  rw [List.filterMap_cons_none hnone]

end Books

end ServerlessHarness.RemoteWorker
