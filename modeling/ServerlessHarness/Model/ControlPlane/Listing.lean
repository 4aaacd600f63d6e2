import Mathlib.Data.List.Sort
import Mathlib.Data.String.Basic
import ServerlessHarness.Library.Number
import ServerlessHarness.Model.ControlPlane.Ownership

/-!
# Listing the sessions of an owner

`listByOwner` reads the owner's sorted set from the newest session down, one page for each call.
The cursor of a page is the creation time of its last member, and the next page begins below it.
The handler `listSessions` passes the limit and the cursor of its query on: a limit is any number,
and a fraction is cut off.
-/

set_option autoImplicit false

namespace ServerlessHarness.ControlPlane

open Library

/-- The order of a sorted set read backwards: scores go down, and members of equal score as well. -/
def newerFirst (a b : String × Int) : Prop := b.2 < a.2 ∨ a.2 = b.2 ∧ b.1 ≤ a.1

instance : DecidableRel newerFirst := fun _ _ => inferInstanceAs (Decidable (_ ∨ _))

/-- The members of an owner's sorted set, the newest first. -/
def Redis.members (r : Redis) (key : String) : List (String × Int) :=
  ((r.zsets.get key).getD .empty).entries.insertionSort newerFirst

/-- The members with a score below the cursor, if there is one. -/
def below (cursor : Option Int) (members : List (String × Int)) : List (String × Int) :=
  members.filter fun m => cursor.all fun c => m.2 < c

/-- `ZRANGE key max -inf BYSCORE REV LIMIT 0 count`, with an exclusive `max`. -/
def Redis.zRange (r : Redis) (key : String) (cursor : Option Int) (count : ℕ) : List String :=
  ((below cursor (r.members key)).take count).map Prod.fst

def Redis.zScore (r : Redis) (key member : String) : Option Int :=
  ((r.zsets.get key).getD .empty).get member

structure Page where
  sessions : List SessionRecord
  nextCursor : Option Int
deriving DecidableEq, Repr

/-- SRCLINE: ownership.ts:51-52, 147-151 -/
def pageLimit (requested : Option Number) : ℕ :=
  match requested.getD (.finite 50) with
  | .finite q => if 0 < q then min ⌊q⌋₊ 200 else 50
  | _ => 50

/-- A page of no members is full and has no last one: the client does not ask `ZSCORE` for an
undefined member, and the call fails.
SRCLINE: ownership.ts:143-186 -/
def Redis.listByOwner (r : Redis) (subjectHash : String → String) (subject : String)
    (requested : Option Number) (cursor : Option Int) : Option Page :=
  let key := ownerKey subjectHash subject
  let ids := r.zRange key cursor (pageLimit requested)
  let sessions := ids.filterMap r.getSession
  if ids.length = pageLimit requested then
    ids.getLast?.map fun tail =>
      ⟨sessions, (r.zScore key tail).or (sessions.getLast?.map SessionRecord.createdAt)⟩
  else some ⟨sessions, none⟩

/-- Follows `nextCursor` until it is null, over at most `fuel` pages; nothing if a page cannot be
had. -/
def Redis.walkPages (r : Redis) (subjectHash : String → String) (subject : String)
    (requested : Option Number) : (fuel : ℕ) → (cursor : Option Int) → Option (List SessionRecord)
  | 0, _ => none
  | fuel + 1, cursor =>
    (r.listByOwner subjectHash subject requested cursor).bind fun page =>
      match page.nextCursor with
      | none => some page.sessions
      | some next =>
        (r.walkPages subjectHash subject requested fuel (some next)).map fun rest =>
          page.sessions ++ rest

end ServerlessHarness.ControlPlane
