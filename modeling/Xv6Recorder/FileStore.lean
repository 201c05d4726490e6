/-
# Files over an inode layer

What `file.c` and `create` make of an inode layer.  `FileView` says what is observed of
it: which inode a path names from a working directory, and the bytes of the inodes that are
regular files.  `StoreLaws` says what the operations that reach the contents of a file do to
these observations, on the states that satisfy an invariant, and `FileStore` adds the
operations that look names up.

`iput` frees an inode that has lost its last link, so its law is for inodes that have one:
the regular files that a path names, and the directories in which a path ends.

Over `StoreLaws`, `filewrite` replaces the start of a file and keeps the rest, although
it cuts the bytes into transactions, and `fileread` reads the file back.  Over
`FileStore`, `create` finds or makes the file and leaves its contents as they are.
-/
import Xv6Recorder.Kernel

open Bytes StateError

namespace Xv6

variable {σ ι π α : Type}

/-! ## What is observed -/

/-- A path with the working directory from which it is resolved. -/
abbrev Place (ι : Type) := ι × List Byte

/-- A path that starts at the root directory. -/
def Absolute (path : List Byte) : Prop := path.head? = some 47

/-- What is observed of the state of the inode layer. -/
structure FileView (σ ι : Type) where
  /-- The inode that the path of a place names. -/
  target (a : Place ι) (s : σ) : Option ι
  /-- The bytes of an inode that is a regular file. -/
  bytes (s : σ) (ip : ι) : Option (List Byte)
  /-- The place is the entry `name`, present or not, of the directory `dp`. -/
  Parent (a : Place ι) (s : σ) (dp : ι) (name : List Byte) : Prop
  /-- `ip` stands for an empty regular file without a name, which counts `nlink` links. -/
  Fresh (s : σ) (ip : ι) (nlink : Short) : Prop

/-- The bytes of the regular file at a place. -/
def FileView.contents (v : FileView σ ι) (a : Place ι) (s : σ) : Option (List Byte) :=
  (v.target a s).bind (v.bytes s)

theorem FileView.contents_eq (v : FileView σ ι) {a : Place ι} {s : σ} {ip : ι}
    (h : v.target a s = some ip) : v.contents a s = v.bytes s ip := by
  rw [FileView.contents, h, Option.bind_some]

/-- The places and their files stay as they are. -/
structure FileView.SameFiles (v : FileView σ ι) (s s' : σ) : Prop where
  target : ∀ a, v.target a s' = v.target a s
  contents : ∀ a, v.contents a s' = v.contents a s
  parent : ∀ {a dp name}, v.Parent a s dp name → v.Parent a s' dp name

/-- What is observed stays as it is. -/
structure FileView.Same (v : FileView σ ι) (s s' : σ) : Prop extends v.SameFiles s s' where
  fresh : ∀ {ip n}, v.Fresh s ip n → v.Fresh s' ip n

theorem FileView.Same.refl (v : FileView σ ι) (s : σ) : v.Same s s :=
  ⟨⟨fun _ => rfl, fun _ => rfl, id⟩, id⟩

/-- An inode that has a link: a path names it and it is a regular file, or a path ends in it
as a directory. -/
def FileView.Linked (v : FileView σ ι) (s : σ) (ip : ι) : Prop :=
  (∃ a, v.target a s = some ip ∧ (v.contents a s).isSome) ∨ ∃ a name, v.Parent a s ip name

/-- A program that keeps an invariant and changes nothing that is observed. -/
def FileView.QuietOn (v : FileView σ ι) (Inv : σ → Prop) (x : EStateM String σ α) : Prop :=
  ∀ ⦃s a s'⦄, Inv s → x.run s = .ok a s' → Inv s' ∧ v.Same s s'

theorem FileView.quietOn_pure (v : FileView σ ι) {Inv : σ → Prop} (a : α) :
    v.QuietOn Inv (pure a : EStateM String σ α) := by
  intro s b s' hinv h
  injection h with _ hs
  rw [← hs]
  exact ⟨hinv, .refl _ _⟩

/-! ## Open files -/

/-- What reading, writing and closing an open file needs of the inode layer. -/
structure StoreLaws (ops : FsOps σ ι π) extends FileView σ ι where
  Inv : σ → Prop
  /-- The inode has been read into memory. -/
  Loaded : σ → ι → Prop
  beginOp : toFileView.QuietOn Inv ops.beginOp
  endOp : toFileView.QuietOn Inv ops.endOp
  ilock : ∀ {s s' ip}, Inv s → (ops.ilock ip).run s = .ok () s' →
    (Inv s' ∧ toFileView.Same s s') ∧ Loaded s' ip ∧ ∀ i, Loaded s i → Loaded s' i
  iunlock : ∀ ip, toFileView.QuietOn Inv (ops.iunlock ip)
  /-- An inode that has a link is not freed. -/
  iput : ∀ {s s' ip}, Inv s → toFileView.Linked s ip → (ops.iput ip).run s = .ok () s' →
    Inv s' ∧ toFileView.Same s s'
  readi : ∀ {a s s' ip off n r data}, Inv s → Loaded s ip → target a s = some ip →
    bytes s ip = some data → off.toNat ≤ data.length → off.toNat + n.toNat < 2 ^ 32 →
    (ops.readi ip off n).run s = .ok r s' →
    (Inv s' ∧ toFileView.Same s s') ∧
      r = (BitVec.ofNat 32 r.2.length, (data.drop off.toNat).take n.toNat)
  writei : ∀ {a s s' ip src off r data}, Inv s → Loaded s ip → target a s = some ip →
    bytes s ip = some data → off.toNat ≤ data.length → off.toNat + src.length < 2 ^ 32 →
    (ops.writei ip src off).run s = .ok r s' → 0 ≤ r.toInt →
    Inv s' ∧ target a s' = some ip ∧
      bytes s' ip = some (data.take off.toNat ++ src ++ data.drop (off.toNat + src.length))

section

variable {ops : FsOps σ ι π} (laws : StoreLaws ops)

/-- A condition that holds on the invariant and looks at the inode layer only through what
is observed. -/
structure StoreLaws.Stable (P : Kern σ ι π → Prop) : Prop where
  inv : ∀ {k}, P k → laws.Inv k.fs
  same : ∀ {k s'}, P k → laws.Inv s' → laws.Same k.fs s' → P { k with fs := s' }

variable {laws} {P : Kern σ ι π → Prop}

/-- A stable condition survives a quiet program. -/
theorem StoreLaws.Stable.quiet (hP : laws.Stable P) {x : EStateM String σ α}
    (hx : laws.QuietOn laws.Inv x) : Ensures P (onFs x) (fun _ => P) := by
  refine Ensures.zoom fun k hk => ?_
  rintro s a s' rfl hrun
  obtain ⟨hinv, hsame⟩ := hx (hP.inv hk) hrun
  exact hP.same hk hinv hsame

theorem StoreLaws.Stable.ilock (hP : laws.Stable P) (ip : ι) :
    Ensures P (onFs (ops.ilock ip)) (fun _ k => P k ∧ laws.Loaded k.fs ip) := by
  refine Ensures.zoom fun k hk => ?_
  rintro s a s' rfl hrun
  obtain ⟨⟨hinv, hsame⟩, hloaded, -⟩ := laws.ilock (hP.inv hk) hrun
  exact ⟨hP.same hk hinv hsame, hloaded⟩

/-- An inode that is in memory stays there when another one is locked. -/
theorem StoreLaws.Stable.ilock_loaded (hP : laws.Stable P) (ip i : ι) :
    Ensures (fun k => P k ∧ laws.Loaded k.fs i) (onFs (ops.ilock ip))
      (fun _ k => (P k ∧ laws.Loaded k.fs i) ∧ laws.Loaded k.fs ip) := by
  refine Ensures.zoom fun k hk => ?_
  rintro s a s' rfl hrun
  obtain ⟨⟨hinv, hsame⟩, hloaded, hkept⟩ := laws.ilock (hP.inv hk.1) hrun
  exact ⟨⟨hP.same hk.1 hinv hsame, hkept i hk.2⟩, hloaded⟩

theorem StoreLaws.Stable.iput (hP : laws.Stable P) {ip : ι}
    (hlinked : ∀ k, P k → laws.Linked k.fs ip) :
    Ensures P (onFs (ops.iput ip)) (fun _ => P) := by
  refine Ensures.zoom fun k hk => ?_
  rintro s a s' rfl hrun
  obtain ⟨hinv, hsame⟩ := laws.iput (hP.inv hk) (hlinked k hk) hrun
  exact hP.same hk hinv hsame

theorem StoreLaws.Stable.iunlockput (hP : laws.Stable P) {ip : ι}
    (hlinked : ∀ k, P k → laws.Linked k.fs ip) : Ensures P (iunlockput ops ip) (fun _ => P) :=
  (hP.quiet (laws.iunlock ip)).bind fun _ => hP.iput hlinked

variable (laws)

/-- The process is `p`, and `f` is open on the inode `ip` at a place, `pos` bytes into the
file, whose contents are `bytes`. -/
structure StoreLaws.OpenOn (p : Proc ι) (place : Place ι) (f : Fin nfile) (ip : ι) (pos : ℕ)
    (bytes : List Byte) (k : Kern σ ι π) : Prop where
  proc : k.proc = p
  inv : laws.Inv k.fs
  type : (k.ftable f).type = .inode ip
  off : (k.ftable f).off = BitVec.ofNat 32 pos
  target : laws.target place k.fs = some ip
  contents : laws.contents place k.fs = some bytes

variable {p : Proc ι} {place : Place ι} {f : Fin nfile} {ip : ι} {pos : ℕ} {bytes : List Byte}
  {k : Kern σ ι π}

theorem StoreLaws.openOn_stable : laws.Stable (laws.OpenOn p place f ip pos bytes) where
  inv h := h.inv
  same h hinv hs := ⟨h.proc, hinv, h.type, h.off, (hs.target place).trans h.target,
    (hs.contents place).trans h.contents⟩

variable {laws} in
theorem StoreLaws.OpenOn.bytes_eq (h : laws.OpenOn p place f ip pos bytes k) :
    laws.bytes k.fs ip = some bytes := by
  rw [← laws.contents_eq h.target, h.contents]

variable {laws} in
/-- Moving the offset of an open file. -/
theorem StoreLaws.OpenOn.advance {n : ℕ} (h : laws.OpenOn p place f ip pos bytes k) :
    laws.OpenOn p place f ip (pos + n) bytes
      (setFile f { k.ftable f with off := (k.ftable f).off + BitVec.ofNat 32 n } k) where
  proc := h.proc
  inv := h.inv
  type := by simp [setFile, h.type]
  off := by simp [setFile, h.off, BitVec.ofNat_add]
  target := h.target
  contents := h.contents

/-- One chunk of `filewrite` in the middle of a file. -/
theorem StoreLaws.filewriteChunk_ensures (before chunk after : List Byte)
    (hlen : before.length + chunk.length < 2 ^ 31) :
    Ensures (laws.OpenOn p place f ip before.length (before ++ after))
      (filewriteChunk ops f ip chunk)
      (fun r k => r = BitVec.ofNat 32 chunk.length →
        laws.OpenOn p place f ip (before ++ chunk).length
          (before ++ chunk ++ after.drop chunk.length) k) := by
  refine (laws.openOn_stable.quiet laws.beginOp).bind fun _ => ?_
  refine (laws.openOn_stable.ilock ip).bind fun _ => ?_
  refine Ensures.get_bind fun k hk => ?_
  obtain ⟨hk, hloaded⟩ := hk
  -- after `writei` the bytes are there, the offset is not moved yet
  refine Ensures.bind (Q := fun r k => r = BitVec.ofNat 32 chunk.length →
    laws.OpenOn p place f ip before.length (before ++ chunk ++ after.drop chunk.length) k) ?_
    fun r => ?_
  · refine Ensures.zoom fun k₁ hk₁ => ?_
    rintro s r s' rfl hrun rfl
    rw [hk₁, hk.off] at hrun
    have hoff : (BitVec.ofNat 32 before.length).toNat = before.length :=
      toNat_ofNat_of_lt (by omega)
    have hsign : 0 ≤ (BitVec.ofNat 32 chunk.length).toInt := by
      rw [toInt_ofNat_of_lt (by omega)]
      omega
    obtain ⟨hinv, htarget, hbytes⟩ := laws.writei hk.inv hloaded hk.target hk.bytes_eq
      (by rw [hoff]; simp) (by rw [hoff]; omega) hrun hsign
    rw [hoff, List.take_left, List.drop_append] at hbytes
    rw [hk₁]
    refine ⟨hk.proc, hinv, hk.type, hk.off, htarget, ?_⟩
    rw [laws.contents_eq htarget, hbytes]
    simp
  -- then the offset moves by what was written, which may be nothing
  have htail : Ensures (fun k => r = BitVec.ofNat 32 chunk.length →
      laws.OpenOn p place f ip (before ++ chunk).length
        (before ++ chunk ++ after.drop chunk.length) k)
      (do onFs (ops.iunlock ip); onFs ops.endOp; pure r : KM σ ι π Word)
      (fun r k => r = BitVec.ofNat 32 chunk.length →
        laws.OpenOn p place f ip (before ++ chunk).length
          (before ++ chunk ++ after.drop chunk.length) k) := by
    by_cases hr : r = BitVec.ofNat 32 chunk.length
    · refine Ensures.imp (R := laws.OpenOn p place f ip (before ++ chunk).length
        (before ++ chunk ++ after.drop chunk.length)) ?_ (fun k h => h hr) fun _ _ h => h
      refine (laws.openOn_stable.quiet (laws.iunlock ip)).bind fun _ => ?_
      exact (laws.openOn_stable.quiet laws.endOp).bind fun _ => .pure fun _ h _ => h
    · exact (ensures_true _).bind fun _ => (ensures_true _).bind fun _ =>
        .pure fun _ _ h => absurd h hr
  refine .ite (fun _ => Ensures.bind (.modify ?_) fun _ => htail)
    fun hr => htail.imp ?_ fun _ _ h => h
  · rintro k h rfl
    rw [List.length_append]
    exact (h rfl).advance
  · rintro k h rfl
    rw [toInt_ofNat_of_lt (by omega)] at hr
    have hempty : chunk = [] := List.length_eq_zero_iff.mp (by omega)
    have hk := h rfl
    rw [hempty] at hk ⊢
    simpa using hk

/-- **The loop of `filewrite`** puts all the bytes at the offset, one chunk after the
other. -/
theorem StoreLaws.filewriteLoop_ensures (fuel : ℕ) (before src after : List Byte)
    (hfuel : src.length ≤ fuel) (hlen : before.length + src.length < 2 ^ 31) :
    Ensures (laws.OpenOn p place f ip before.length (before ++ after))
      (filewriteLoop ops f ip fuel src)
      (fun ok k => ok = true → laws.OpenOn p place f ip (before ++ src).length
        (before ++ src ++ after.drop src.length) k) := by
  induction fuel generalizing before src after with
  | zero =>
    have hempty : src = [] := List.length_eq_zero_iff.mp (by omega)
    subst hempty
    exact .pure fun k h _ => by simpa using h
  | succ fuel ih =>
    refine Ensures.ite (fun hempty => .pure fun k h _ => ?_) fun hne => ?_
    · rw [List.isEmpty_iff] at hempty
      subst hempty
      simpa using h
    rw [List.isEmpty_iff] at hne
    have hpos : 0 < src.length := List.length_pos_iff.mpr hne
    have htake : (src.take maxWrite).length ≤ src.length := by simp
    refine Ensures.bind
      (laws.filewriteChunk_ensures before (src.take maxWrite) after (by omega)) fun r => ?_
    refine .ite (fun _ => .pure fun _ _ h => absurd h (by simp)) fun _ => ?_
    refine .ite (fun _ => .throw _) fun hr => ?_
    have hrest := ih (before ++ src.take maxWrite) (src.drop maxWrite)
      (after.drop (src.take maxWrite).length) (by simp [maxWrite]; omega) (by simp; omega)
    refine hrest.imp (fun k h => h (not_not.mp hr)) fun ok k h hok => ?_
    have hopen := h hok
    rw [List.append_assoc before, List.take_append_drop, List.drop_drop, ← List.length_append,
      List.take_append_drop] at hopen
    exact hopen

/-- **`filewrite`** from the start of a file: unless it fails, the bytes written have
taken the place of as many bytes at the start. -/
theorem StoreLaws.filewrite_ensures {src : List Byte} (hlen : src.length < 2 ^ 31) :
    Ensures (laws.OpenOn p place f ip 0 bytes) (filewrite ops f src)
      (fun r k => r ≠ -1 →
        laws.OpenOn p place f ip src.length (src ++ bytes.drop src.length) k) := by
  refine Ensures.get_bind fun k hk => .ite (fun _ => .pure fun _ _ h => absurd rfl h) fun _ => ?_
  simp only [hk.type]
  refine Ensures.bind (Q := fun ok k => ok = true →
    laws.OpenOn p place f ip src.length (src ++ bytes.drop src.length) k) ?_ fun ok => .pure ?_
  · intro k₁ ok k₂ hk₁ hloop
    rw [hk₁] at hloop
    exact laws.filewriteLoop_ensures src.length [] src bytes le_rfl (by simpa using hlen) hk hloop
  · intro k₁ h hr
    cases ok with
    | false => exact absurd rfl hr
    | true => exact h rfl

/-- **`fileread`** from the start of a file that was opened for reading. -/
theorem StoreLaws.fileread_readable {n : Word} (hk : laws.OpenOn p place f ip 0 bytes k)
    (hreadable : (k.ftable f).readable = true) :
    Ensures (· = k) (fileread ops f n)
      (fun r k => r = (BitVec.ofNat 32 r.2.length, bytes.take n.toNat) ∧
        ∃ pos, laws.OpenOn p place f ip pos bytes k) := by
  refine Ensures.get_bind fun k₀ hk₀ => ?_
  subst hk₀
  rw [if_neg (by rw [hreadable]; decide)]
  simp only [hk.type]
  refine Ensures.imp (R := laws.OpenOn p place f ip 0 bytes) ?_ (by rintro _ rfl; exact hk)
    fun _ _ h => h
  refine (laws.openOn_stable.ilock ip).bind fun _ => ?_
  refine Ensures.bind (Q := fun r k => r = (BitVec.ofNat 32 r.2.length, bytes.take n.toNat) ∧
    laws.OpenOn p place f ip 0 bytes k) ?_ fun r => ?_
  · refine Ensures.zoom fun k₁ hk₁ => ?_
    obtain ⟨hk₁, hloaded⟩ := hk₁
    rintro s r s' rfl hrun
    rw [hk.off] at hrun
    obtain ⟨⟨hinv, hsame⟩, hr⟩ := laws.readi hk₁.inv hloaded hk₁.target hk₁.bytes_eq
      (Nat.zero_le _) (by simpa using n.isLt) hrun
    exact ⟨by simpa using hr, laws.openOn_stable.same hk₁ hinv hsame⟩
  have hstable : laws.Stable fun k => r = (BitVec.ofNat 32 r.2.length, bytes.take n.toNat) ∧
      ∃ pos, laws.OpenOn p place f ip pos bytes k :=
    { inv := fun ⟨_, _, h⟩ => h.inv
      same := fun ⟨hr, pos, h⟩ hinv hs => ⟨hr, pos, laws.openOn_stable.same h hinv hs⟩ }
  have htail := (hstable.quiet (laws.iunlock ip)).bind (R := fun r k =>
    r = (BitVec.ofNat 32 r.2.length, bytes.take n.toNat) ∧
      ∃ pos, laws.OpenOn p place f ip pos bytes k) fun _ => .pure (a := r) fun _ h => h
  refine .ite (fun _ => Ensures.bind (.modify ?_) fun _ => htail) fun _ =>
    htail.imp (fun k h => ⟨h.1, 0, h.2⟩) fun _ _ h => h
  rintro k₁ ⟨hr, hopen⟩
  have hmove := hopen.advance (n := r.2.length)
  rw [show BitVec.ofNat 32 r.2.length = r.1 from (congrArg Prod.fst hr).symm] at hmove
  exact ⟨hr, _, hmove⟩

/-- **`fileread`** from the start of a file. -/
theorem StoreLaws.fileread_ensures {n : Word} :
    Ensures (laws.OpenOn p place f ip 0 bytes) (fileread ops f n)
      (fun r k => r.1 ≠ -1 → r = (BitVec.ofNat 32 r.2.length, bytes.take n.toNat) ∧
        ∃ pos, laws.OpenOn p place f ip pos bytes k) := by
  intro k r k' hk hrun hr
  cases hreadable : (k.ftable f).readable with
  | true => exact laws.fileread_readable hk hreadable rfl hrun
  | false =>
    rw [fileread, EStateM.run_bind, EStateM.run_get] at hrun
    dsimp only at hrun
    rw [if_pos hreadable] at hrun
    injection hrun with hminus _
    exact absurd (congrArg Prod.fst hminus).symm hr

/-- The process is `p`, and the contents at a place are `c`. -/
structure StoreLaws.Holds (p : Proc ι) (place : Place ι) (c : Option (List Byte))
    (k : Kern σ ι π) : Prop where
  proc : k.proc = p
  inv : laws.Inv k.fs
  contents : laws.contents place k.fs = c

/-- Moreover, `ip` is the inode at the place, and it is a regular file that holds `bytes`. -/
structure StoreLaws.Found (p : Proc ι) (place : Place ι) (bytes : List Byte) (ip : ι)
    (k : Kern σ ι π) : Prop extends laws.Holds p place (some bytes) k where
  target : laws.target place k.fs = some ip

theorem StoreLaws.found_stable : laws.Stable (laws.Found p place bytes ip) where
  inv h := h.inv
  same h hinv hs :=
    ⟨⟨h.proc, hinv, (hs.contents place).trans h.contents⟩, (hs.target place).trans h.target⟩

variable {laws} in
theorem StoreLaws.Found.linked (h : laws.Found p place bytes ip k) : laws.Linked k.fs ip := by
  refine .inl ⟨place, h.target, ?_⟩
  rw [h.contents]
  rfl

/-- **`fileclose`** of the file at a place keeps what it holds. -/
theorem StoreLaws.fileclose_ensures :
    Ensures (fun k => (k.ftable f).type = .inode ip ∧ laws.Found p place bytes ip k)
      (fileclose ops f) (fun _ => laws.Found p place bytes ip) := by
  refine Ensures.get_bind fun k hk => .ite (fun _ => .throw _) fun _ => .ite (fun _ => ?_) fun _ => ?_
  · exact .modify (f := fun _ => _) fun _ _ => ⟨⟨hk.2.proc, hk.2.inv, hk.2.contents⟩, hk.2.target⟩
  · refine Ensures.bind (Q := fun _ => laws.Found p place bytes ip) (.modify (f := fun _ => _)
      fun _ _ => ⟨⟨hk.2.proc, hk.2.inv, hk.2.contents⟩, hk.2.target⟩) fun _ => ?_
    simp only [hk.1]
    refine (laws.found_stable.quiet laws.beginOp).bind fun _ => ?_
    refine (laws.found_stable.iput fun _ h => h.linked).bind fun _ => ?_
    exact laws.found_stable.quiet laws.endOp

end

/-! ## `create` -/

/-- A postcondition on what was found, if anything was. -/
def IfSome (Q : α → Kern σ ι π → Prop) (r : Option α) (k : Kern σ ι π) : Prop :=
  ∀ a, r = some a → Q a k

theorem ensures_none {P : Kern σ ι π → Prop} {Q : α → Kern σ ι π → Prop} :
    Ensures P (pure none : KM σ ι π (Option α)) (IfSome Q) :=
  .pure fun _ _ _ h => absurd h (by simp)

theorem ensures_some {P : Kern σ ι π → Prop} {Q : α → Kern σ ι π → Prop} {a : α}
    (h : ∀ k, P k → Q a k) : Ensures P (pure (some a) : KM σ ι π (Option α)) (IfSome Q) := by
  refine .pure fun k hk b hb => ?_
  rw [← Option.some.inj hb]
  exact h k hk

section

variable {ops : FsOps σ ι π} {path : List Byte} {major minor : Short}

/-- **The rule for `create`** of a regular file, from what its operations ensure: `Dir`
once the parent is known, `Hit` or `Miss` after the look-up, `New` for the inode that is
made, `Ready` when it is written back, `Made` when it has its name, `Done` at the end.
`Open` says that the parent is locked. -/
theorem create_ensures_of {Start : Kern σ ι π → Prop} {Done : ι → Kern σ ι π → Prop}
    (Dir Open Miss : ι × List Byte → Kern σ ι π → Prop)
    (Hit New Locked Ready Made : ι × List Byte → ι → Kern σ ι π → Prop)
    (hparent : ∀ k, Start k →
      Ensures (· = k) (onFs (ops.nameiparent k.proc.cwd path)) (IfSome Dir))
    (hlock : ∀ d, Ensures (Dir d) (onFs (ops.ilock d.1)) (fun _ => Open d))
    (hlookup : ∀ d, Ensures (Open d) (onFs (ops.dirlookup d.1 d.2))
      (fun r k => match r with | some e => Hit d e.1 k | none => Miss d k))
    (hput : ∀ d ip, Ensures (Hit d ip) (iunlockput ops d.1) (fun _ => Hit d ip))
    (hfile : ∀ d ip, Ensures (Hit d ip) (onFs (ops.ilock ip))
      (fun _ k => (ops.inode k.fs ip).type = tFile → Done ip k))
    (halloc : ∀ d dev, Ensures (Miss d) (onFs (ops.ialloc dev tFile)) (IfSome (New d)))
    (hnew : ∀ d ip, Ensures (New d ip) (onFs (ops.ilock ip)) (fun _ => Locked d ip))
    (hinit : ∀ d ip, Ensures (Locked d ip) (do
        assign ops ip fun n => { n with major, minor, nlink := 1 }
        onFs (ops.iupdate ip)) (fun _ => Ready d ip))
    (hlink : ∀ d ip k, Ready d ip k →
      Ensures (· = k) (onFs (ops.dirlink d.1 d.2 (ops.inode k.fs ip).inum))
        (fun r k => 0 ≤ r.toInt → Made d ip k))
    (hdone : ∀ d ip, Ensures (Made d ip) (iunlockput ops d.1) (fun _ => Done ip)) :
    Ensures Start (create ops path tFile major minor) (IfSome Done) := by
  refine Ensures.get_bind fun k hk => ?_
  refine (hparent k hk).bind fun r => ?_
  cases r with
  | none => exact ensures_none
  | some d =>
    refine Ensures.imp (R := Dir d) ?_ (fun k h => h d rfl) fun _ _ h => h
    refine (hlock d).bind fun _ => ?_
    refine (hlookup d).bind fun r => ?_
    cases r with
    | some e =>
      refine (hput d e.1).bind fun _ => ?_
      refine (hfile d e.1).bind fun _ => ?_
      refine Ensures.get_bind fun k₁ hk₁ => .ite (fun htype => ?_) fun _ => ?_
      · refine ensures_some fun k₂ hk₂ => ?_
        rw [hk₂]
        exact hk₁ htype.2
      · exact (ensures_true _).bind fun _ => ensures_none
    | none =>
      refine Ensures.get_bind fun k₁ hk₁ => ?_
      refine ((halloc d (ops.inode k₁.fs d.1).dev).imp (by rintro _ rfl; exact hk₁)
        fun _ _ h => h).bind fun r => ?_
      cases r with
      | none => exact .throw _
      | some ip =>
        refine Ensures.imp (R := New d ip) ?_ (fun k h => h ip rfl) fun _ _ h => h
        refine (hnew d ip).bind fun _ => ?_
        refine (hinit d ip).bind_bind fun _ => ?_
        -- a regular file has no dots to create
        refine Ensures.ite (fun h => absurd h (by decide)) fun _ => ?_
        refine Ensures.get_bind fun k₂ hk₂ => ?_
        refine (hlink d ip k₂ hk₂).bind fun r => ?_
        refine Ensures.ite (fun _ => .throw _) fun hr => ?_
        refine Ensures.imp (R := Made d ip) ?_ (fun k h => h (by omega)) fun _ _ h => h
        exact (hdone d ip).bind fun _ => ensures_some fun _ h => h

end

/-! ## Names -/

/-- What looking up and making files needs of the inode layer besides. -/
structure FileStore (ops : FsOps σ ι π) extends StoreLaws ops where
  /-- What an absolute path names does not depend on the working directory. -/
  absolute : ∀ {path cwd cwd' s}, Absolute path → target (cwd, path) s = target (cwd', path) s
  /-- The fields that `create` assigns to a new inode and writes back give it its link. -/
  init : ∀ {s s' ip} major minor, Inv s → Loaded s ip → Fresh s ip 0 →
    (ops.iupdate ip).run (ops.setInode ip { ops.inode s ip with major, minor, nlink := 1 } s)
      = .ok () s' →
    (Inv s' ∧ toFileView.SameFiles s s') ∧ Fresh s' ip 1 ∧ ∀ i, Loaded s i → Loaded s' i
  namei : ∀ {cwd path s s' ip t}, Inv s → target (cwd, path) s = some t →
    (ops.namei cwd path).run s = .ok (some ip) s' →
    (Inv s' ∧ toFileView.Same s s') ∧ ip = t
  nameiparent : ∀ {cwd path s s' dp name}, Inv s →
    (ops.nameiparent cwd path).run s = .ok (some (dp, name)) s' →
    (Inv s' ∧ toFileView.Same s s') ∧ Parent (cwd, path) s' dp name
  dirlookup_some : ∀ {a s s' dp name ip off}, Inv s → Loaded s dp → Parent a s dp name →
    (ops.dirlookup dp name).run s = .ok (some (ip, off)) s' →
    (Inv s' ∧ toFileView.Same s s') ∧ target a s' = some ip
  dirlookup_none : ∀ {a s s' dp name}, Inv s → Loaded s dp → Parent a s dp name →
    (ops.dirlookup dp name).run s = .ok none s' →
    (Inv s' ∧ toFileView.Same s s') ∧ target a s' = none ∧ Loaded s' dp
  ialloc : ∀ {a s s' dev dp name ip}, Inv s → Loaded s dp → Parent a s dp name →
    (ops.ialloc dev tFile).run s = .ok (some ip) s' →
    (Inv s' ∧ toFileView.Same s s') ∧ Fresh s' ip 0 ∧ Loaded s' dp
  dirlink : ∀ {a s s' dp name ip r}, Inv s → Loaded s dp → Parent a s dp name → Fresh s ip 1 →
    (ops.dirlink dp name (ops.inode s ip).inum).run s = .ok r s' → 0 ≤ r.toInt →
    Inv s' ∧ Parent a s' dp name ∧ target a s' = some ip ∧ bytes s' ip = some []
  /-- A locked inode shows whether it is a regular file. -/
  ilock_regular : ∀ {s s' ip}, Inv s → (ops.ilock ip).run s = .ok () s' →
    (ops.inode s' ip).type = tFile → (bytes s' ip).isSome

section

variable {ops : FsOps σ ι π} (store : FileStore ops)

/-- The process is `p`, and the file at a place, if there is one, holds `bytes`; if there
is none, `bytes` is empty. -/
structure FileStore.Old (p : Proc ι) (place : Place ι) (bytes : List Byte) (k : Kern σ ι π) :
    Prop where
  proc : k.proc = p
  inv : store.Inv k.fs
  contents : (store.contents place k.fs).getD [] = bytes

variable {store} {p : Proc ι} {place : Place ι} {bytes : List Byte} {k : Kern σ ι π} {s' : σ}

theorem FileStore.Old.same (h : store.Old p place bytes k) (hinv : store.Inv s')
    (hs : store.SameFiles k.fs s') : store.Old p place bytes { k with fs := s' } :=
  ⟨h.proc, hinv, by rw [hs.contents]; exact h.contents⟩

/-- The conditions of `create` that remember what the file held. -/
theorem FileStore.old_stable {R : σ → Prop} (hR : ∀ {s s'}, R s → store.Same s s' → R s') :
    store.Stable fun k => store.Old p place bytes k ∧ R k.fs where
  inv h := h.1.inv
  same h hinv hs := ⟨h.1.same hinv hs.toSameFiles, hR h.2 hs⟩

/-! ### The states that `create` goes through -/

namespace FileStore

variable (store p place bytes)

/-- The directory was found. -/
def InDir (d : ι × List Byte) (k : Kern σ ι π) : Prop :=
  store.Old p place bytes k ∧ store.Parent place k.fs d.1 d.2

/-- The directory has no such entry. -/
def Missing (d : ι × List Byte) (k : Kern σ ι π) : Prop :=
  (store.Old p place bytes k ∧ bytes = [] ∧ store.Parent place k.fs d.1 d.2) ∧
    store.Loaded k.fs d.1

/-- The entry was found. -/
def Entered (d : ι × List Byte) (ip : ι) (k : Kern σ ι π) : Prop :=
  store.Old p place bytes k ∧ store.Parent place k.fs d.1 d.2 ∧
    store.target place k.fs = some ip

/-- An inode was allocated for the entry; it counts `nlink` links. -/
def Allocated (nlink : Short) (d : ι × List Byte) (ip : ι) (k : Kern σ ι π) : Prop :=
  store.Old p place bytes k ∧ bytes = [] ∧ store.Parent place k.fs d.1 d.2 ∧
    store.Fresh k.fs ip nlink

/-- The inode has been given the name. -/
def Entitled (d : ι × List Byte) (ip : ι) (k : Kern σ ι π) : Prop :=
  store.Found p place bytes ip k ∧ store.Parent place k.fs d.1 d.2

variable {store p place bytes} {nlink : Short} {d : ι × List Byte} {ip : ι}

theorem inDir_stable : store.Stable (store.InDir p place bytes d) :=
  old_stable (R := fun s => store.Parent place s d.1 d.2) fun h hs => hs.parent h

theorem entered_stable : store.Stable (store.Entered p place bytes d ip) :=
  old_stable (R := fun s => store.Parent place s d.1 d.2 ∧ store.target place s = some ip)
    fun h hs => ⟨hs.parent h.1, (hs.target place).trans h.2⟩

theorem allocated_stable : store.Stable (store.Allocated p place bytes nlink d ip) :=
  old_stable (R := fun s => bytes = [] ∧ store.Parent place s d.1 d.2 ∧ store.Fresh s ip nlink)
    fun h hs => ⟨h.1, hs.parent h.2.1, hs.fresh h.2.2⟩

theorem entitled_stable : store.Stable (store.Entitled p place bytes d ip) where
  inv h := h.1.inv
  same h hinv hs := ⟨store.found_stable.same h.1 hinv hs, hs.parent h.2⟩

theorem nameiparent_ensures (hcwd : p.cwd = place.1) (hk : store.Old p place bytes k) :
    Ensures (· = k) (onFs (ops.nameiparent k.proc.cwd place.2))
      (IfSome (store.InDir p place bytes)) := by
  refine Ensures.zoom fun k₁ hk₁ => ?_
  rintro s r s' rfl hrun d rfl
  rw [hk₁] at hrun ⊢
  rw [hk.proc, hcwd] at hrun
  obtain ⟨⟨hinv, hsame⟩, hparent⟩ := store.nameiparent hk.inv hrun
  exact ⟨hk.same hinv hsame.toSameFiles, hparent⟩

/-- A missing file holds nothing. -/
theorem dirlookup_ensures :
    Ensures (fun k => store.InDir p place bytes d k ∧ store.Loaded k.fs d.1)
      (onFs (ops.dirlookup d.1 d.2)) (fun r k =>
      match r with
      | some e => store.Entered p place bytes d e.1 k
      | none => store.Missing p place bytes d k) := by
  refine Ensures.zoom fun k hk => ?_
  obtain ⟨⟨hold, hparent⟩, hloaded⟩ := hk
  rintro s r s' rfl hrun
  cases r with
  | some e =>
    obtain ⟨⟨hinv, hsame⟩, htarget⟩ := store.dirlookup_some hold.inv hloaded hparent hrun
    exact ⟨hold.same hinv hsame.toSameFiles, hsame.parent hparent, htarget⟩
  | none =>
    obtain ⟨⟨hinv, hsame⟩, hnone, hkept⟩ := store.dirlookup_none hold.inv hloaded hparent hrun
    have hold := hold.same hinv hsame.toSameFiles
    refine ⟨⟨hold, ?_, hsame.parent hparent⟩, hkept⟩
    have hbytes := hold.contents
    rw [FileView.contents, hnone] at hbytes
    exact hbytes.symm

/-- The entry is of a regular file, when the locked inode says so. -/
theorem ilock_entered_ensures :
    Ensures (store.Entered p place bytes d ip) (onFs (ops.ilock ip)) (fun _ k =>
      (ops.inode k.fs ip).type = tFile → store.Found p place bytes ip k) := by
  refine Ensures.zoom fun k hk => ?_
  rintro s r s' rfl hrun htype
  obtain ⟨⟨hinv, hsame⟩, -⟩ := store.ilock hk.1.inv hrun
  have hold := hk.1.same hinv hsame.toSameFiles
  have htarget := (hsame.target place).trans hk.2.2
  obtain ⟨c, hc⟩ := Option.isSome_iff_exists.mp (store.ilock_regular hk.1.inv hrun htype)
  have hcontents : store.contents place s' = some c := by rw [store.contents_eq htarget, hc]
  have hbytes := hold.contents
  rw [hcontents, Option.getD_some] at hbytes
  exact ⟨⟨hk.1.proc, hinv, by rw [hcontents, hbytes]⟩, htarget⟩

theorem ialloc_ensures {dev : Word} :
    Ensures (store.Missing p place bytes d) (onFs (ops.ialloc dev tFile))
      (IfSome fun ip k => store.Allocated p place bytes 0 d ip k ∧ store.Loaded k.fs d.1) := by
  refine Ensures.zoom fun k hk => ?_
  obtain ⟨⟨hold, hempty, hparent⟩, hloaded⟩ := hk
  rintro s r s' rfl hrun ip rfl
  obtain ⟨⟨hinv, hsame⟩, hfresh, hkept⟩ := store.ialloc hold.inv hloaded hparent hrun
  exact ⟨⟨hold.same hinv hsame.toSameFiles, hempty, hsame.parent hparent, hfresh⟩, hkept⟩

/-- The new inode, locked, is filled in and written back. -/
theorem init_ensures (major minor : Short) :
    Ensures (fun k => (store.Allocated p place bytes 0 d ip k ∧ store.Loaded k.fs d.1) ∧
        store.Loaded k.fs ip) (do
        assign ops ip fun n => { n with major, minor, nlink := 1 }
        onFs (ops.iupdate ip))
      (fun _ k => store.Allocated p place bytes 1 d ip k ∧ store.Loaded k.fs d.1) := by
  intro k r k' hk hrun
  obtain ⟨⟨⟨hold, hempty, hparent, hfresh⟩, hdir⟩, hloaded⟩ := hk
  obtain ⟨_, k₁, hassign, hupdate⟩ := run_bind_eq_ok.mp hrun
  injection hassign with _ hk₁
  subst hk₁
  obtain ⟨s', hback, rfl⟩ := run_zoom_eq_ok.mp hupdate
  obtain ⟨⟨hinv, hsame⟩, hfresh', hkept⟩ := store.init major minor hold.inv hloaded hfresh hback
  exact ⟨⟨hold.same hinv hsame, hempty, hsame.parent hparent, hfresh'⟩, hkept _ hdir⟩

/-- The new entry is of an empty file. -/
theorem dirlink_ensures (hk : store.Allocated p place bytes 1 d ip k)
    (hloaded : store.Loaded k.fs d.1) :
    Ensures (· = k) (onFs (ops.dirlink d.1 d.2 (ops.inode k.fs ip).inum))
      (fun r k => 0 ≤ r.toInt → store.Entitled p place bytes d ip k) := by
  refine Ensures.zoom fun k₁ hk₁ => ?_
  rintro s r s' rfl hrun hr
  rw [hk₁] at hrun ⊢
  obtain ⟨hold, hempty, hparent, hfresh⟩ := hk
  obtain ⟨hinv, hparent', htarget, hbytes⟩ := store.dirlink hold.inv hloaded hparent hfresh
    hrun hr
  refine ⟨⟨⟨hold.proc, hinv, ?_⟩, htarget⟩, hparent'⟩
  rw [store.contents_eq htarget, hbytes, hempty]

/-- **`create` of a regular file** finds the file with what it held, or makes it empty. -/
theorem create_ensures (hcwd : p.cwd = place.1) (major minor : Short) :
    Ensures (store.Old p place bytes) (create ops place.2 tFile major minor)
      (IfSome (store.Found p place bytes)) := by
  refine create_ensures_of (store.InDir p place bytes)
    (fun d k => store.InDir p place bytes d k ∧ store.Loaded k.fs d.1)
    (store.Missing p place bytes) (store.Entered p place bytes)
    (fun d ip k => store.Allocated p place bytes 0 d ip k ∧ store.Loaded k.fs d.1)
    (fun d ip k => (store.Allocated p place bytes 0 d ip k ∧ store.Loaded k.fs d.1) ∧
      store.Loaded k.fs ip)
    (fun d ip k => store.Allocated p place bytes 1 d ip k ∧ store.Loaded k.fs d.1)
    (store.Entitled p place bytes) ?_ ?_ ?_ ?_ ?_ ?_ ?_ ?_ ?_ ?_
  · intro k hk
    exact nameiparent_ensures hcwd hk
  · intro d
    exact inDir_stable.ilock d.1
  · intro d
    exact dirlookup_ensures
  · intro d ip
    exact entered_stable.iunlockput fun k hk => .inr ⟨place, d.2, hk.2.1⟩
  · intro d ip
    exact ilock_entered_ensures
  · intro d dev
    exact ialloc_ensures
  · intro d ip
    exact allocated_stable.ilock_loaded ip d.1
  · intro d ip
    exact init_ensures major minor
  · intro d ip k hk
    exact dirlink_ensures hk.1 hk.2
  · intro d ip
    exact (entitled_stable.iunlockput fun k hk => .inr ⟨place, d.2, hk.2⟩).imp (fun _ h => h)
      fun _ _ h => h.1

end FileStore

end

end Xv6
