import ServerlessHarness.Analysis.ConfigBundle.Untar
import ServerlessHarness.Interface.ConfigBundle.Tar

/-!
# An archive is its entries

For entries at different paths, `canonicalTar` forgets the order and what is undefined about the
modes, and nothing else: `untar` gives the entries back in the order of the bytes of their paths
(`untars_canonicalTar`), and since it gives back one list only (`untars_unique`), two lists with
the same archive are the same entries.
-/

set_option autoImplicit false

namespace ServerlessHarness.ConfigBundle

open Library

variable {entry : TarEntry} {entries other : List TarEntry} {tar : List UInt8}

instance : IsTrans TarEntry fun a b => sortKey a ≤ sortKey b :=
  ⟨fun _ _ _ h h' => le_trans h h'⟩

instance : Std.Total fun a b : TarEntry => sortKey a ≤ sortKey b :=
  ⟨fun a b => le_total (sortKey a) (sortKey b)⟩

/-- An entry with its mode stated. -/
def explicit (entry : TarEntry) : TarEntry := { entry with mode := some (some (modeOf entry)) }

/-- A relative path without a NUL. -/
def Sound (entry : TarEntry) : Prop :=
  '\x00' ∉ entry.path.toList ∧ entry.path.toList.head? ≠ some '/'

theorem readBack_eq (h : Sound entry) : readBack entry = explicit entry := by
  rw [readBack, readPath_eq_self h.1 h.2, String.ofList_toList, explicit]

/-- Entries at different relative paths, none with a NUL, whose sizes fit into a header. -/
structure Packable (entries : List TarEntry) : Prop where
  distinct : (entries.map TarEntry.path).Nodup
  sound : ∀ entry ∈ entries, Sound entry
  fits : ∀ entry ∈ entries, Fits entry

theorem sortEntries_perm (entries : List TarEntry) : (sortEntries entries).Perm entries :=
  List.perm_insertionSort _ entries

theorem path_eq_of_sortKey_eq {a b : TarEntry} (h : sortKey a = sortKey b) : a.path = b.path := by
  have hbytes : utf8 a.path.toList = utf8 b.path.toList :=
    List.map_injective_iff.mpr (fun _ _ => UInt8.toNat_inj.mp) h
  have hchars : a.path.toList = b.path.toList := by
    rw [← decodeText_utf8 a.path.toList, hbytes, decodeText_utf8]
  exact String.toList_injective hchars

theorem Packable.eq_of_sortKey_eq (h : Packable entries) {a b : TarEntry} (ha : a ∈ entries)
    (hb : b ∈ entries) (hkey : sortKey a = sortKey b) : a = b :=
  List.inj_on_of_nodup_map h.distinct ha hb (path_eq_of_sortKey_eq hkey)

theorem Packable.sorted (h : Packable entries) :
    (sortEntries entries).Pairwise fun a b => sortKey a < sortKey b := by
  have hpaths : (sortEntries entries).Pairwise fun a b => a.path ≠ b.path :=
    List.pairwise_map.mp (((sortEntries_perm entries).map TarEntry.path).nodup_iff.mpr h.distinct)
  have hle : (sortEntries entries).Pairwise fun a b => sortKey a ≤ sortKey b :=
    List.pairwise_insertionSort _ entries
  refine (hle.and hpaths).imp ?_
  intro a b hab
  apply lt_of_le_of_ne hab.1
  intro hkey
  exact hab.2 (path_eq_of_sortKey_eq hkey)

theorem Packable.sortEntries_eq (h : Packable entries) (hperm : other.Perm entries) :
    sortEntries other = sortEntries entries := by
  have hother : (sortEntries other).Pairwise fun a b => sortKey a ≤ sortKey b :=
    List.pairwise_insertionSort _ other
  have hentries : (sortEntries entries).Pairwise fun a b => sortKey a ≤ sortKey b :=
    List.pairwise_insertionSort _ entries
  refine List.Perm.eq_of_pairwise ?_ hother hentries
    ((sortEntries_perm other).trans (hperm.trans (sortEntries_perm entries).symm))
  intro a b ha hb hab hba
  apply h.eq_of_sortKey_eq
  · exact hperm.mem_iff.mp ((sortEntries_perm other).mem_iff.mp ha)
  · exact (sortEntries_perm entries).mem_iff.mp hb
  · exact le_antisymm hab hba

theorem Packable.canonicalTar_eq (h : Packable entries) (hperm : other.Perm entries) :
    canonicalTar other = canonicalTar entries := by
  rw [canonicalTar, canonicalTar, h.sortEntries_eq hperm]

theorem Packable.untars (h : Packable entries) (htar : canonicalTar entries = .ok tar) :
    Untars tar ((sortEntries entries).map explicit) := by
  have hread : (sortEntries entries).map readBack = (sortEntries entries).map explicit := by
    apply List.map_congr_left
    intro entry hentry
    exact readBack_eq (h.sound entry ((sortEntries_perm entries).mem_iff.mp hentry))
  rw [← hread]
  exact untars_canonicalTar htar h.fits

theorem Packable.perm_of_canonicalTar_eq (h : Packable entries) (hother : Packable other)
    (htar : canonicalTar entries = .ok tar) (htar' : canonicalTar other = .ok tar) :
    (other.map explicit).Perm (entries.map explicit) := by
  have hsame : (sortEntries other).map explicit = (sortEntries entries).map explicit :=
    untars_unique (hother.untars htar') (h.untars htar)
  have hperm := ((sortEntries_perm other).map explicit).symm
  rw [hsame] at hperm
  exact hperm.trans ((sortEntries_perm entries).map explicit)

/-- **Packing loses the order of the entries and nothing else**: reading the archive gives the
entries in the order of the bytes of their paths, each with its content and the mode that `modeOf`
says; every permutation of the entries has this archive; and all entries that have it are these. -/
theorem archive_determines_entries (h : Packable entries) (htar : canonicalTar entries = .ok tar) :
    (∀ result, Untars tar result ↔ result = (sortEntries entries).map explicit) ∧
      (sortEntries entries).Perm entries ∧
      (sortEntries entries).Pairwise (fun a b => sortKey a < sortKey b) ∧
      (∀ other, other.Perm entries → canonicalTar other = .ok tar) ∧
      ∀ other, Packable other → canonicalTar other = .ok tar →
        (other.map explicit).Perm (entries.map explicit) := by
  refine ⟨?_, sortEntries_perm entries, h.sorted, ?_, ?_⟩
  · intro result
    constructor
    · intro hresult
      exact untars_unique hresult (h.untars htar)
    · intro hresult
      rw [hresult]
      exact h.untars htar
  · intro other hperm
    rw [h.canonicalTar_eq hperm, htar]
  · intro other hother htar'
    exact h.perm_of_canonicalTar_eq hother htar htar'

/-- Two files, the second of which comes first in an archive. -/
def twoFiles : List TarEntry :=
  [⟨"prompts/b.md", [104, 105], none⟩, ⟨"a", [], some (some 33261)⟩]

theorem packable_twoFiles : Packable twoFiles where
  distinct := by decide
  sound := by
    unfold Sound
    decide
  fits := by
    unfold Fits
    decide

theorem archive_determines_entries_twoFiles : ∃ tar, canonicalTar twoFiles = .ok tar ∧
    Untars tar [⟨"a", [], some (some 493)⟩, ⟨"prompts/b.md", [104, 105], some (some 420)⟩] := by
  have hok : (canonicalTar twoFiles).isOk = true := by decide +kernel
  cases htar : canonicalTar twoFiles with
  | error message =>
    rw [htar] at hok
    cases hok
  | ok tar =>
    refine ⟨tar, rfl, ?_⟩
    apply ((archive_determines_entries packable_twoFiles htar).1 _).mpr
    decide +kernel

end ServerlessHarness.ConfigBundle
