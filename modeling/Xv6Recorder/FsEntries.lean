/-
# Directory entries

A directory is a file of entries of `16` bytes.  What `dirlookup` searches, as a function of
the bytes of the directory: the first entry in use under the name.  Writing a new entry over
an empty one, or behind the last, gives its name a meaning and takes nothing away from the
other names.
-/
import Mathlib.Data.List.Basic
import Xv6Recorder.FsNames

open Bytes

namespace Xv6

variable {bytes name : List Byte} {i j : ℕ}

/-! ## Looking up -/

/-- Entry `i` of a directory. -/
def direntAt (bytes : List Byte) (i : ℕ) : List Byte :=
  (bytes.drop (direntSize * i)).take direntSize

/-- Entry `i` is in use, under the name. -/
def IsEntry (bytes name : List Byte) (i : ℕ) : Prop :=
  direntInum (direntAt bytes i) ≠ 0 ∧ namecmp name (direntName (direntAt bytes i)) = true

instance : Decidable (IsEntry bytes name i) := inferInstanceAs (Decidable (_ ∧ _))

/-- The inode under a name. -/
def lookup (bytes name : List Byte) : Option ℕ :=
  ((List.range (bytes.length / direntSize)).find? fun i => decide (IsEntry bytes name i)).map
    fun i => direntInum (direntAt bytes i)

/-- The first entry with the name decides. -/
theorem lookup_eq_some {ip : ℕ} : lookup bytes name = some ip ↔
    ∃ i < bytes.length / direntSize, IsEntry bytes name i ∧
      direntInum (direntAt bytes i) = ip ∧ ∀ j < i, ¬ IsEntry bytes name j := by
  rw [lookup, Option.map_eq_some_iff]
  constructor
  · rintro ⟨i, hfind, hip⟩
    obtain ⟨hentry, hmem, hbefore⟩ := List.find?_range_eq_some.mp hfind
    exact ⟨i, List.mem_range.mp hmem, of_decide_eq_true hentry, hip,
      fun j hj => by simpa using hbefore j hj⟩
  · rintro ⟨i, hi, hentry, hip, hbefore⟩
    exact ⟨i, List.find?_range_eq_some.mpr ⟨decide_eq_true hentry, List.mem_range.mpr hi,
      fun j hj => by simpa using hbefore j hj⟩, hip⟩

theorem lookup_eq_none : lookup bytes name = none ↔
    ∀ i < bytes.length / direntSize, ¬ IsEntry bytes name i := by
  rw [lookup, Option.map_eq_none_iff, List.find?_range_eq_none]
  simp

/-! ## The bytes of an entry -/

theorem length_dirent (name : List Byte) (inum : Word) :
    (dirent name inum).length = direntSize := by
  simp only [dirent, List.length_append, length_toBytes, List.length_take, List.length_replicate,
    direntSize]
  omega

/-- An entry has 16 bits for the inode. -/
theorem direntInum_dirent (name : List Byte) (inum : Word) :
    direntInum (dirent name inum) = inum.toNat % 2 ^ 16 := by
  have htake : (dirent name inum).take 2 = toBytes (inum.setWidth 16) :=
    List.take_left' (length_toBytes _)
  rw [direntInum, htake, fromBytes_toBytes (by decide), BitVec.toNat_setWidth]

/-- The bytes of a string are before its end. -/
theorem cstr_append_zeros {l : List Byte} (h : 0 ∉ l) (n : ℕ) :
    cstr (l ++ List.replicate n 0) = l := by
  have hall : ∀ b ∈ l, (fun b : Byte => decide (b ≠ 0)) b = true := by
    intro b hb
    simp only [ne_eq, decide_eq_true_eq]
    rintro rfl
    exact h hb
  rw [cstr, List.takeWhile_append_of_pos hall]
  cases n <;> simp [List.replicate_succ]

/-- An entry has `DIRSIZ` bytes for the name. -/
theorem direntName_dirent (h : 0 ∉ name) (inum : Word) :
    direntName (dirent name inum) = name.take 14 := by
  have hdrop : (dirent name inum).drop 2
      = name.take 14 ++ List.replicate (14 - name.length) 0 := List.drop_left' (length_toBytes _)
  rw [direntName, hdrop]
  exact cstr_append_zeros (fun hmem => h (List.mem_of_mem_take hmem)) _

/-! ## A new entry -/

/-- The directory with another entry `j`. -/
def putEntry (bytes : List Byte) (j : ℕ) (de : List Byte) : List Byte :=
  bytes.take (direntSize * j) ++ de ++ bytes.drop (direntSize * j + de.length)

section

variable {de : List Byte} (hde : de.length = direntSize) (hj : direntSize * j ≤ bytes.length)
include hde hj

theorem length_putEntry :
    (putEntry bytes j de).length = max bytes.length (direntSize * (j + 1)) := by
  simp only [putEntry, List.length_append, List.length_take, List.length_drop, hde]
  rw [Nat.mul_add, Nat.mul_one]
  omega

/-- The entry that is written, and below the others. -/
theorem direntAt_putEntry_self : direntAt (putEntry bytes j de) j = de := by
  have hlen : (bytes.take (direntSize * j)).length = direntSize * j := by
    rw [List.length_take]
    omega
  rw [direntAt, putEntry, List.append_assoc, List.drop_left' hlen, List.take_left' hde]

theorem direntAt_putEntry_of_ne (hi : i ≠ j) (hlt : direntSize * (i + 1) ≤ bytes.length) :
    direntAt (putEntry bytes j de) i = direntAt bytes i := by
  have hlen : (bytes.take (direntSize * j)).length = direntSize * j := by
    rw [List.length_take]
    omega
  rw [Nat.mul_add, Nat.mul_one] at hlt
  rcases Nat.lt_or_gt_of_ne hi with hlow | hhigh
  · -- an entry before the new one
    have hle : direntSize * i + direntSize ≤ direntSize * j := by
      have := Nat.mul_le_mul_left direntSize (Nat.succ_le_of_lt hlow)
      rwa [Nat.mul_succ] at this
    rw [direntAt, direntAt, putEntry, List.append_assoc,
      List.drop_append_of_le_length (by omega), List.drop_take,
      List.take_append_of_le_length (by rw [List.length_take, List.length_drop]; omega),
      List.take_take, min_eq_left (by omega)]
  · -- an entry behind it
    have hle : direntSize * j + direntSize ≤ direntSize * i := by
      have := Nat.mul_le_mul_left direntSize (Nat.succ_le_of_lt hhigh)
      rwa [Nat.mul_succ] at this
    rw [direntAt, direntAt, putEntry, List.drop_append, List.drop_of_length_le
      (by rw [List.length_append]; omega), List.nil_append, List.drop_drop, List.length_append,
      hlen, hde, show direntSize * j + direntSize
        + (direntSize * i - (direntSize * j + direntSize)) = direntSize * i by omega]

end

/-- Where a new entry may go: over an entry that is not in use, or behind the last. -/
structure Vacant (bytes : List Byte) (j : ℕ) : Prop where
  le : direntSize * j ≤ bytes.length
  free : direntSize * (j + 1) ≤ bytes.length → direntInum (direntAt bytes j) = 0
  whole : ¬ direntSize * (j + 1) ≤ bytes.length → direntSize * j = bytes.length

theorem lt_div_iff {n : ℕ} : i < n / direntSize ↔ direntSize * (i + 1) ≤ n := by
  rw [Nat.lt_div_iff_mul_lt (by decide), direntSize]
  omega

/-- `namecmp` looks at `DIRSIZ` bytes. -/
theorem namecmp_iff {s t : List Byte} : namecmp s t = true ↔ s.take 14 = t.take 14 := by
  rw [namecmp, beq_iff_eq]

section

variable {inum : Word} (hj : Vacant bytes j) (hzero : 0 ∉ name) (hinum : inum.toNat % 2 ^ 16 ≠ 0)
include hj

/-- The entries of the directory with the new one. -/
theorem Vacant.direntAt_cases (hi : direntSize * (i + 1) ≤ (putEntry bytes j
    (dirent name inum)).length) : i = j ∨
      (direntSize * (i + 1) ≤ bytes.length ∧
        direntAt (putEntry bytes j (dirent name inum)) i = direntAt bytes i) := by
  by_cases hij : i = j
  · exact .inl hij
  · have hle : direntSize * (i + 1) ≤ bytes.length := by
      rw [length_putEntry (length_dirent name inum) hj.le] at hi
      by_contra hout
      have hwhole := hj.whole
      simp only [direntSize] at hi hout hwhole
      have := hj.le
      simp only [direntSize] at this
      omega
    exact .inr ⟨hle, direntAt_putEntry_of_ne (length_dirent name inum) hj.le hij hle⟩

/-- A name that means something in the directory with the new entry means the new inode, or
what it meant. -/
theorem Vacant.lookup_cases {other : List Byte} {ip : ℕ}
    (hsome : lookup (putEntry bytes j (dirent name inum)) other = some ip) :
    ip = inum.toNat % 2 ^ 16 ∨ lookup bytes other = some ip := by
  obtain ⟨i, hi, hentry, hip, hbefore⟩ := lookup_eq_some.mp hsome
  have hde := length_dirent name inum
  rcases hj.direntAt_cases (lt_div_iff.mp hi) with rfl | ⟨hlt, hsame⟩
  · rw [direntAt_putEntry_self hde hj.le, direntInum_dirent] at hip
    exact .inl hip.symm
  · rw [IsEntry, hsame] at hentry
    rw [hsame] at hip
    refine .inr (lookup_eq_some.mpr ⟨i, lt_div_iff.mpr hlt, hentry, hip, fun k hk hearlier => ?_⟩)
    have hle : direntSize * (k + 1) ≤ bytes.length := by
      simp only [direntSize] at hlt ⊢
      omega
    by_cases hkj : k = j
    · rw [hkj] at hearlier hle
      exact hearlier.1 (hj.free hle)
    · refine hbefore k hk ?_
      rw [IsEntry, direntAt_putEntry_of_ne hde hj.le hkj hle]
      exact hearlier

include hzero hinum

theorem Vacant.isEntry_self : IsEntry (putEntry bytes j (dirent name inum)) name j := by
  rw [IsEntry, direntAt_putEntry_self (length_dirent name inum) hj.le, direntInum_dirent,
    direntName_dirent hzero, namecmp_iff, List.take_take, min_self]
  exact ⟨hinum, rfl⟩

/-- **The new name** means the new inode, if it meant nothing. -/
theorem Vacant.lookup_self (hnone : lookup bytes name = none) :
    lookup (putEntry bytes j (dirent name inum)) name = some (inum.toNat % 2 ^ 16) := by
  have hlen := length_putEntry (length_dirent name inum) hj.le
  refine lookup_eq_some.mpr ⟨j, ?_, hj.isEntry_self hzero hinum, ?_, fun i hi hentry => ?_⟩
  · rw [lt_div_iff, hlen]
    exact le_max_right _ _
  · rw [direntAt_putEntry_self (length_dirent name inum) hj.le, direntInum_dirent]
  · -- an entry before the new one was there before
    have hle : direntSize * (i + 1) ≤ (putEntry bytes j (dirent name inum)).length := by
      rw [hlen]
      simp only [direntSize]
      omega
    rcases hj.direntAt_cases hle with rfl | ⟨hlt, hsame⟩
    · exact absurd hi (lt_irrefl _)
    · rw [IsEntry, hsame] at hentry
      exact lookup_eq_none.mp hnone i (lt_div_iff.mpr hlt) hentry

omit hinum in
/-- **The other names** mean what they meant. -/
theorem Vacant.lookup_of_some (hnone : lookup bytes name = none) {other : List Byte} {ip : ℕ}
    (hsome : lookup bytes other = some ip) :
    lookup (putEntry bytes j (dirent name inum)) other = some ip := by
  obtain ⟨i, hi, hentry, hip, hbefore⟩ := lookup_eq_some.mp hsome
  have hde := length_dirent name inum
  have hlen := length_putEntry hde hj.le
  rw [lt_div_iff] at hi
  have hij : i ≠ j := by
    rintro rfl
    exact hentry.1 (hj.free hi)
  have hsame := direntAt_putEntry_of_ne hde hj.le hij hi
  refine lookup_eq_some.mpr ⟨i, ?_, ?_, by rw [hsame]; exact hip, fun k hk hearlier => ?_⟩
  · rw [lt_div_iff, hlen]
    exact hi.trans (le_max_left _ _)
  · rw [IsEntry, hsame]
    exact hentry
  · by_cases hkj : k = j
    · -- then the other name is the new one, cut at `DIRSIZ` bytes
      subst hkj
      rw [IsEntry, direntAt_putEntry_self hde hj.le, direntName_dirent hzero] at hearlier
      have hnames : other.take 14 = name.take 14 := by
        have := namecmp_iff.mp hearlier.2
        rwa [List.take_take, min_self] at this
      refine lookup_eq_none.mp hnone i (lt_div_iff.mpr hi) ⟨hentry.1, ?_⟩
      rw [namecmp_iff, ← hnames]
      exact namecmp_iff.mp hentry.2
    · have hle : direntSize * (k + 1) ≤ bytes.length := by
        simp only [direntSize] at hi ⊢
        omega
      rw [IsEntry, direntAt_putEntry_of_ne hde hj.le hkj hle] at hearlier
      exact hbefore k hk hearlier

end

end Xv6
