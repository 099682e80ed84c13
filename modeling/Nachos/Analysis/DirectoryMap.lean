import Mathlib.Data.Nat.Find
import Nachos.Analysis.FileLookup
import Nachos.Library.MapHistory

/-!
# The directory as a map from names

`Add` and `Remove` keep the names in use distinct, so that each is found at its own entry. What
the directory keeps is a map from the first `FileNameMaxLen` characters of the names, since it
stores no more and compares no more: `lookup_after` is this map law, for every sequence of calls.
It is the law for whole names exactly for those sets of names in which no two begin with the same
`FileNameMaxLen` characters.
-/

set_option autoImplicit false

namespace Nachos.Analysis

open Nachos.Library Nachos.Model

/-! ## Names -/

/-- A name as a `char *` to a terminated string. -/
structure CName where
  buf : Buffer
  terminated : ∃ k, buf k = 0#8

/-- The characters before the terminator. -/
def CName.text (name : CName) : List Byte :=
  (List.range (Nat.find name.terminated)).map name.buf

/-- What the directory sees of a name. -/
def CName.shortText (name : CName) : List Byte := name.text.take fileNameMaxLen

theorem CName.lt_length_iff (name : CName) {k : ℕ} :
    k < name.text.length ↔ ∀ j ≤ k, name.buf j ≠ 0#8 := by
  simp [CName.text, Nat.lt_find_iff]

theorem CName.getElem?_text (name : CName) {k : ℕ} (h : k < name.text.length) :
    name.text[k]? = some (name.buf k) := by
  simp only [CName.text, List.length_map, List.length_range] at h
  simp [CName.text, h]

theorem lt_length_of_strncmpEq {a b : CName} {n k : ℕ} (h : strncmpEq a.buf b.buf n = true)
    (hk : k < n) (hlt : k < a.text.length) :
    k < b.text.length ∧ a.buf k = b.buf k := by
  rw [a.lt_length_iff] at hlt
  rw [strncmpEq_iff] at h
  have heq : ∀ j ≤ k, a.buf j = b.buf j :=
    fun j hj => h j (by omega) fun i hi => hlt i (by omega)
  refine ⟨b.lt_length_iff.mpr fun j hj => ?_, heq k le_rfl⟩
  rw [← heq j hj]
  exact hlt j hj

/-- INTERNAL: **`strncmp` compares the first characters of the strings.** -/
theorem strncmpEq_iff_take {a b : CName} {n : ℕ} :
    strncmpEq a.buf b.buf n = true ↔ a.text.take n = b.text.take n := by
  constructor
  · intro h
    apply List.ext_getElem?
    intro k
    rw [List.getElem?_take, List.getElem?_take]
    by_cases hk : k < n
    · rw [if_pos hk, if_pos hk]
      by_cases ha : k < a.text.length
      · obtain ⟨hb, heq⟩ := lt_length_of_strncmpEq h hk ha
        rw [a.getElem?_text ha, b.getElem?_text hb, heq]
      · have hb : ¬ k < b.text.length :=
          fun hb => ha (lt_length_of_strncmpEq (strncmpEq_symm h) hk hb).1
        rw [List.getElem?_eq_none (not_lt.mp ha), List.getElem?_eq_none (not_lt.mp hb)]
    · rw [if_neg hk, if_neg hk]
  · intro h
    have hget : ∀ k < n, a.text[k]? = b.text[k]? := by
      intro k hk
      have heq := congrArg (fun l : List Byte => l[k]?) h
      simpa only [List.getElem?_take, if_pos hk] using heq
    have hlen : ∀ k < n, k < a.text.length ↔ k < b.text.length := by
      intro k hk
      rw [← not_iff_not, not_lt, not_lt, ← List.getElem?_eq_none_iff, ← List.getElem?_eq_none_iff,
        hget k hk]
    have hbuf : ∀ k < n, k < a.text.length → a.buf k = b.buf k := by
      intro k hk ha
      have heq := hget k hk
      rw [a.getElem?_text ha, b.getElem?_text ((hlen k hk).mp ha)] at heq
      exact Option.some.inj heq
    rw [strncmpEq_iff]
    intro k hk hpre
    by_cases ha : k < a.text.length
    · exact hbuf k hk ha
    · -- both names end at `k`
      have hzero : ∀ {name : CName}, ¬ k < name.text.length → (∀ j < k, name.buf j ≠ 0#8) →
          name.buf k = 0#8 := by
        intro name hno hbefore
        by_contra hne
        refine hno (name.lt_length_iff.mpr fun j hj => ?_)
        rcases Nat.lt_or_eq_of_le hj with hj | rfl
        · exact hbefore j hj
        · exact hne
      have hbpre : ∀ j < k, b.buf j ≠ 0#8 := by
        intro j hj
        have haj : j < a.text.length := a.lt_length_iff.mpr fun i hi => hpre i (by omega)
        rw [← hbuf j (by omega) haj]
        exact hpre j hj
      rw [hzero ha hpre, hzero (fun hb => ha ((hlen k hk).mpr hb)) hbpre]

/-! ## Calls -/

/-- `Add(name, newSector)` is an insertion, `Remove(name)` an erasure. -/
abbrev DirectoryCall : Type := MapCall CName (BitVec 32)

/-- One call and its answer. -/
def callDirectory (directory : Directory) : DirectoryCall → Bool × Directory
  | .insert name newSector => directory.add name.buf newSector.toInt
  | .erase name => directory.remove name.buf

/-- The directory after a sequence of calls. -/
def afterCalls : Directory → List DirectoryCall → Directory
  | directory, [] => directory
  | directory, c :: calls => afterCalls (callDirectory directory c).2 calls

/-- The calls with their answers. -/
def callHistory : Directory → List DirectoryCall → List (DirectoryCall × Bool)
  | _, [] => []
  | directory, c :: calls =>
    (c, (callDirectory directory c).1) :: callHistory (callDirectory directory c).2 calls

/-- What a lookup finds. -/
def lookup (directory : Directory) (name : CName) : Option (BitVec 32) :=
  (directory.findIndex name.buf).map fun i => (directory.table i).sector

theorem find_eq_lookup (directory : Directory) (name : CName) :
    directory.find name.buf = ((lookup directory name).map BitVec.toInt).getD (-1) := by
  unfold Directory.find lookup
  cases directory.findIndex name.buf <;> rfl

section Step

variable {directory : Directory}

/-- INTERNAL: `Add` puts its entry under a new name. -/
theorem DistinctNames.addEntry (h : DistinctNames directory) {name : Buffer}
    (hidx : directory.findIndex name = none) (i : ℕ) (sector : ℤ) :
    DistinctNames (directory.setEntry i (newEntry directory i name sector)) := by
  have hother : ∀ j < directory.tableSize, j ≠ i → (directory.table j).inUse = true →
      strncmpEq (directory.table j).nameBuf (newEntry directory i name sector).nameBuf
        fileNameMaxLen = false := by
    intro j hj _ hu
    apply strncmpEq_newEntry
    have hnamed := findIndex_eq_none.mp hidx j hj
    unfold Directory.isNamed at hnamed
    rw [hu, Bool.true_and] at hnamed
    exact hnamed
  intro j hj k hk hne huj huk
  by_cases hji : j = i
  · subst hji
    rw [table_setEntry_of_ne _ (Ne.symm hne)] at huk ⊢
    rw [table_setEntry_self, Bool.eq_false_iff]
    intro hsame
    have hback := strncmpEq_symm hsame
    rw [hother k hk (Ne.symm hne) huk] at hback
    cases hback
  · rw [table_setEntry_of_ne _ hji] at huj ⊢
    by_cases hki : k = i
    · subst hki
      rw [table_setEntry_self]
      exact hother j hj hji huj
    · rw [table_setEntry_of_ne _ hki] at huk ⊢
      exact h j hj k hk hne huj huk

theorem DistinctNames.removeEntry (h : DistinctNames directory) (i : ℕ) :
    DistinctNames (directory.setEntry i { directory.table i with inUse := false }) := by
  have hkept : ∀ {j : ℕ},
      ((directory.setEntry i { directory.table i with inUse := false }).table j).inUse = true →
      j ≠ i := by
    rintro j hu rfl
    rw [table_setEntry_self] at hu
    cases hu
  intro j hj k hk hne huj huk
  have hji := hkept huj
  have hki := hkept huk
  rw [table_setEntry_of_ne _ hji] at huj ⊢
  rw [table_setEntry_of_ne _ hki] at huk ⊢
  exact h j hj k hk hne huj huk

theorem lookup_of_named (h : DistinctNames directory) {name : CName} {i : ℕ}
    (hi : i < directory.tableSize) (hnamed : directory.isNamed name.buf i = true) :
    lookup directory name = some (directory.table i).sector := by
  unfold lookup
  rw [h.findIndex_of_named hi hnamed]
  rfl

theorem lookup_setEntry_of_not_named {name : CName} {i : ℕ} {entry : DirectoryEntry}
    (hnew : (directory.setEntry i entry).isNamed name.buf i = false)
    (hold : directory.isNamed name.buf i = false) :
    lookup (directory.setEntry i entry) name = lookup directory name := by
  unfold lookup
  rw [findIndex_setEntry_of_not_named hnew hold]
  cases hidx : directory.findIndex name.buf with
  | none => rfl
  | some j =>
    have hji : j ≠ i := by
      rintro rfl
      rw [(findIndex_eq_some hidx).2] at hold
      cases hold
    simp only [Option.map_some, table_setEntry_of_ne directory hji]

theorem strncmpEq_iff_shortText {a b : CName} :
    strncmpEq a.buf b.buf fileNameMaxLen = true ↔ a.shortText = b.shortText :=
  strncmpEq_iff_take

/-- INTERNAL: `Add`. -/
theorem DistinctNames.add (h : DistinctNames directory) (name : CName) (newSector : BitVec 32) :
    DistinctNames (directory.add name.buf newSector.toInt).2 ∧
    ∀ q : CName, lookup (directory.add name.buf newSector.toInt).2 q =
      if (directory.add name.buf newSector.toInt).1 = true ∧ name.shortText = q.shortText
      then some newSector else lookup directory q := by
  cases hidx : directory.findIndex name.buf with
  | some i =>
    have hadd : directory.add name.buf newSector.toInt = (false, directory) := by
      unfold Directory.add
      rw [hidx]
    rw [hadd]
    exact ⟨h, fun q => by simp⟩
  | none =>
    rcases add_cases newSector.toInt hidx with ⟨hadd, -⟩ | ⟨i, hi, hunused, hadd⟩
    · rw [hadd]
      exact ⟨h, fun q => by simp⟩
    · rw [hadd]
      have hnew := h.addEntry hidx i newSector.toInt
      refine ⟨hnew, fun q => ?_⟩
      by_cases hsame : name.shortText = q.shortText
      · -- the new entry matches `q` as well
        rw [if_pos ⟨rfl, hsame⟩]
        have hnamed : (directory.setEntry i
            (newEntry directory i name.buf newSector.toInt)).isNamed q.buf i = true := by
          rw [isNamed_iff, table_setEntry_self]
          exact ⟨rfl, strncmpEq_trans (strncmpEq_newEntry_self directory i name.buf newSector.toInt)
            (strncmpEq_iff_shortText.mpr hsame)⟩
        have hlookup := lookup_of_named hnew hi hnamed
        rw [table_setEntry_self] at hlookup
        rw [hlookup]
        exact congrArg some (BitVec.ofInt_toInt)
      · rw [if_neg fun hand => hsame hand.2]
        apply lookup_setEntry_of_not_named
        · apply isNamed_newEntry_of_ne
          rw [Bool.eq_false_iff]
          exact fun heq => hsame (strncmpEq_iff_shortText.mp heq).symm
        · exact isNamed_of_unused hunused

/-- INTERNAL: `Remove`. -/
theorem DistinctNames.remove (h : DistinctNames directory) (name : CName) :
    DistinctNames (directory.remove name.buf).2 ∧
    ∀ q : CName, lookup (directory.remove name.buf).2 q =
      if (directory.remove name.buf).1 = true ∧ name.shortText = q.shortText
      then none else lookup directory q := by
  cases hidx : directory.findIndex name.buf with
  | none =>
    have hremove : directory.remove name.buf = (false, directory) := by
      unfold Directory.remove
      rw [hidx]
    rw [hremove]
    exact ⟨h, fun q => by simp⟩
  | some i =>
    have hremove : directory.remove name.buf =
        (true, directory.setEntry i { directory.table i with inUse := false }) := by
      unfold Directory.remove
      rw [hidx]
    obtain ⟨hi, hnamed⟩ := findIndex_eq_some hidx
    have hnew : ∀ q : Buffer, (directory.setEntry i
        { directory.table i with inUse := false }).isNamed q i = false := by
      intro q
      apply isNamed_of_unused
      rw [table_setEntry_self]
    rw [hremove]
    refine ⟨h.removeEntry i, fun q => ?_⟩
    by_cases hsame : name.shortText = q.shortText
    · rw [if_pos ⟨rfl, hsame⟩]
      -- only the entry `i` had the name
      have hnone : (directory.setEntry i
          { directory.table i with inUse := false }).findIndex q.buf = none := by
        rw [findIndex_eq_none]
        intro j hj
        by_cases hji : j = i
        · rw [hji, hnew]
        · rw [isNamed_setEntry_of_ne _ _ hji, Bool.eq_false_iff]
          intro hnj
          rw [isNamed_iff] at hnj
          have hback : directory.isNamed name.buf j = true := by
            rw [isNamed_iff]
            exact ⟨hnj.1, strncmpEq_trans hnj.2 (strncmpEq_iff_shortText.mpr hsame.symm)⟩
          exact hji (h.named_unique hj hi hback hnamed)
      unfold lookup
      rw [hnone]
      rfl
    · rw [if_neg fun hand => hsame hand.2]
      apply lookup_setEntry_of_not_named (hnew q.buf)
      rw [Bool.eq_false_iff]
      intro hnq
      rw [isNamed_iff] at hnamed hnq
      exact hsame (strncmpEq_iff_shortText.mp
        (strncmpEq_trans (strncmpEq_symm hnamed.2) hnq.2))

/-- INTERNAL: **one call** changes the map from beginnings of names as its answer says.
SRCLINE: filesys/directory.cc:129-162 -/
theorem DistinctNames.call (h : DistinctNames directory) (c : DirectoryCall) :
    DistinctNames (callDirectory directory c).2 ∧
    ∀ q : CName, lookup (callDirectory directory c).2 q =
      heldAfter q.shortText (lookup directory q)
        (c.mapKey CName.shortText, (callDirectory directory c).1) := by
  cases c with
  | insert name newSector =>
    obtain ⟨hdistinct, hlookup⟩ := h.add name newSector
    refine ⟨hdistinct, fun q => (hlookup q).trans ?_⟩
    show _ = heldAfter q.shortText (lookup directory q)
      (.insert name.shortText newSector, (directory.add name.buf newSector.toInt).1)
    cases (directory.add name.buf newSector.toInt).1 <;> simp [heldAfter]
  | erase name =>
    obtain ⟨hdistinct, hlookup⟩ := h.remove name
    refine ⟨hdistinct, fun q => (hlookup q).trans ?_⟩
    show _ = heldAfter q.shortText (lookup directory q)
      (.erase name.shortText, (directory.remove name.buf).1)
    cases (directory.remove name.buf).1 <;> simp [heldAfter]

/-- INTERNAL: **any sequence of calls.**
SRCLINE: filesys/directory.cc:90-162 -/
theorem DistinctNames.lookup_afterCalls (calls : List DirectoryCall) :
    ∀ {directory : Directory}, DistinctNames directory → ∀ q : CName,
      lookup (afterCalls directory calls) q =
        held q.shortText (lookup directory q)
          ((callHistory directory calls).map fun c => (c.1.mapKey CName.shortText, c.2)) := by
  induction calls with
  | nil => exact fun _ _ => rfl
  | cons c calls ih =>
    intro directory h q
    obtain ⟨hdistinct, hstep⟩ := h.call c
    have hrest := ih hdistinct q
    rw [hstep q] at hrest
    exact hrest

end Step

/-! ## Whole names -/

/-- The calls and their answers, by the texts of the names. -/
def textHistory (directory : Directory) (calls : List DirectoryCall) :
    List (MapCall (List Byte) (BitVec 32) × Bool) :=
  (callHistory directory calls).map fun c => (c.1.mapKey CName.text, c.2)

/-- `Find(name)` after the calls returns what a map from whole names has for it: the sector of the
last successful `Add` of exactly that name that no successful `Remove` of it has followed, and -1
if there is none. -/
def FoundAsMap (directory : Directory) (calls : List DirectoryCall) (name : CName) : Prop :=
  (∀ sector, LastInsert (textHistory directory calls) name.text sector →
    (afterCalls directory calls).find name.buf = sector.toInt) ∧
  ((∀ sector, ¬ LastInsert (textHistory directory calls) name.text sector) →
    (afterCalls directory calls).find name.buf = -1)

theorem foundAsMap_iff {directory : Directory} {calls : List DirectoryCall} {name : CName} :
    FoundAsMap directory calls name ↔ (afterCalls directory calls).find name.buf =
      ((held name.text none (textHistory directory calls)).map BitVec.toInt).getD (-1) := by
  unfold FoundAsMap
  simp only [← held_eq_some_iff]
  cases held name.text none (textHistory directory calls) with
  | none => simp
  | some sector => simp

theorem distinctNames_new (size : ℕ) (table : ℕ → DirectoryEntry) :
    DistinctNames (Directory.new size table) := by
  intro i hi j _ _ hu _
  have hi' : i < size := hi
  simp [Directory.new, hi'] at hu

theorem findIndex_new (size : ℕ) (table : ℕ → DirectoryEntry) (name : Buffer) :
    (Directory.new size table).findIndex name = none := by
  rw [findIndex_eq_none]
  intro i hi
  have hi' : i < size := hi
  apply isNamed_of_unused
  simp [Directory.new, hi']

theorem mem_callHistory (calls : List DirectoryCall) :
    ∀ {directory : Directory} {c : DirectoryCall × Bool},
      c ∈ callHistory directory calls → c.1 ∈ calls := by
  induction calls with
  | nil => simp [callHistory]
  | cons e calls ih =>
    intro directory c hc
    rcases List.mem_cons.mp hc with rfl | hc
    · exact List.mem_cons_self
    · exact List.mem_cons_of_mem _ (ih hc)

/-- INTERNAL: among names that are told apart by their beginnings, the directory keeps the map
from whole names. -/
theorem foundAsMap_of_inj (size : ℕ) (table : ℕ → DirectoryEntry) {calls : List DirectoryCall}
    {name : CName}
    (h : ∀ c ∈ calls, c.key.shortText = name.shortText → c.key.text = name.text) :
    FoundAsMap (Directory.new size table) calls name := by
  have hlookup := (distinctNames_new size table).lookup_afterCalls calls name
  have hstart : lookup (Directory.new size table) name = none := by
    unfold lookup
    rw [findIndex_new]
    rfl
  have hshort : (callHistory (Directory.new size table) calls).map
      (fun c => (c.1.mapKey CName.shortText, c.2)) =
      (textHistory (Directory.new size table) calls).map
        fun c => (c.1.mapKey (List.take fileNameMaxLen), c.2) := by
    rw [textHistory, List.map_map]
    apply List.map_congr_left
    rintro ⟨c, done⟩ -
    cases c <;> rfl
  have hinj : ∀ c ∈ textHistory (Directory.new size table) calls,
      c.1.key.take fileNameMaxLen = name.text.take fileNameMaxLen → c.1.key = name.text := by
    intro c hc
    obtain ⟨d, hd, rfl⟩ := List.mem_map.mp hc
    rw [MapCall.key_mapKey]
    exact h d.1 (mem_callHistory calls hd)
  rw [foundAsMap_iff, find_eq_lookup, hlookup, hstart, hshort]
  congr 2
  exact held_mapKey (List.take fileNameMaxLen) none hinj

/-- INTERNAL: a name that begins like another one is found when the other one is added. -/
theorem not_foundAsMap_of_alias {size : ℕ} (hsize : 0 < size) (table : ℕ → DirectoryEntry)
    {a b : CName} (hshort : a.shortText = b.shortText) (htext : a.text ≠ b.text)
    {sector : BitVec 32} (hsector : sector.toInt ≠ -1) :
    ¬ FoundAsMap (Directory.new size table) [.insert a sector] b := by
  have hadd : ((Directory.new size table).add a.buf sector.toInt).1 = true := by
    rcases add_cases sector.toInt (findIndex_new size table a.buf) with
      ⟨-, hall⟩ | ⟨i, -, -, hadd⟩
    · have hu := hall 0 hsize
      simp [Directory.new, hsize] at hu
    · rw [hadd]
  have hfound : lookup (afterCalls (Directory.new size table) [.insert a sector]) b =
      some sector := by
    have hstep := ((distinctNames_new size table).add a sector).2 b
    rwa [if_pos ⟨hadd, hshort⟩] at hstep
  have hhistory : textHistory (Directory.new size table) [.insert a sector] =
      [(.insert a.text sector, true)] := by
    show [(MapCall.insert a.text sector, ((Directory.new size table).add a.buf sector.toInt).1)] = _
    rw [hadd]
  rw [foundAsMap_iff, find_eq_lookup, hfound, hhistory]
  simpa [held, heldAfter, htext] using hsector

/-- SOURCE: filesys/directory.cc:90-162, filesys/directory.h:22-39 — over the names of a given set,
every sequence of `Add` and `Remove` on a new directory leaves a map from whole names for `Find`,
exactly when no two different names of the set have the same first `FileNameMaxLen`
characters. -/
theorem directory_is_map_iff {size : ℕ} (hsize : 0 < size) (table : ℕ → DirectoryEntry)
    (names : CName → Prop) :
    (∀ calls : List DirectoryCall, (∀ c ∈ calls, names c.key) → ∀ name, names name →
      FoundAsMap (Directory.new size table) calls name) ↔
    ∀ a b, names a → names b → a.text.take fileNameMaxLen = b.text.take fileNameMaxLen →
      a.text = b.text := by
  constructor
  · intro h a b ha hb hshort
    by_contra htext
    refine not_foundAsMap_of_alias hsize table hshort htext (show (0#32).toInt ≠ -1 by decide)
      (h [.insert a 0#32] ?_ b hb)
    intro c hc
    rw [List.mem_singleton.mp hc]
    exact ha
  · intro h calls hcalls name hname
    apply foundAsMap_of_inj
    intro c hc
    exact h c.key name (hcalls c hc) hname

/-- Names of at most nine characters. -/
theorem short_names_are_map :
    0 < numDirEntries ∧ ((∀ calls : List DirectoryCall, (∀ c ∈ calls, c.key.text.length ≤ 9) →
      ∀ name : CName, name.text.length ≤ 9 →
        FoundAsMap (Directory.new numDirEntries fun _ => ⟨false, 0#32, fun _ => 0#8⟩) calls name)) := by
  refine ⟨by decide, (directory_is_map_iff (by decide) _ fun name => name.text.length ≤ 9).mpr ?_⟩
  intro a b ha hb hshort
  have hlen : fileNameMaxLen = 9 := rfl
  rwa [List.take_of_length_le (by omega), List.take_of_length_le (by omega)] at hshort

/-- The name in a string constant. -/
def CName.ofString (s : String) (h : ∃ k, cString s k = 0#8) : CName := ⟨cString s, h⟩

/-- SOURCE: filesys/directory.cc:90-116, 129-143 — `Add` of `abcdefghi1` and then `Find` of
`abcdefghi2`, which was never added: the answer is the sector of the first file. -/
theorem long_names_collide :
    (afterCalls (Directory.new numDirEntries fun _ => ⟨false, 0#32, fun _ => 0#8⟩)
      [.insert (.ofString "abcdefghi1" ⟨10, rfl⟩) 5#32]).find (cString "abcdefghi2") = 5 ∧
    ¬ FoundAsMap (Directory.new numDirEntries fun _ => ⟨false, 0#32, fun _ => 0#8⟩)
      [.insert (.ofString "abcdefghi1" ⟨10, rfl⟩) 5#32] (.ofString "abcdefghi2" ⟨10, rfl⟩) := by
  constructor
  · decide +kernel
  · refine not_foundAsMap_of_alias (by decide) _ ?_ ?_ (by decide)
    · exact strncmpEq_iff_shortText.mp (by decide)
    · intro heq
      have hten := congrArg (List.take 10) heq
      rw [← strncmpEq_iff_take] at hten
      revert hten
      decide

end Nachos.Analysis
