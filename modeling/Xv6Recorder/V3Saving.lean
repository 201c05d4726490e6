/-
# Saving and loading a session

`sys_record_stop` writes the encoded log to its file and `sys_replay_start` reads a
file into the buffer, both through `my_open`, `my_read`, `my_write` and `my_close`.
Over a store of files, a successful save leaves a file that begins with the encoding, with
whatever was there before behind it, and a successful load leaves the first
`MAX_FILE_SIZE` bytes of the file in the buffer.  Each of the two takes one descriptor and
gives it back.
-/
import Xv6Recorder.FileStore
import Xv6Recorder.V3Starts

open Bytes StateError Xv6

namespace V3

section

variable {σ ι π : Type} {ops : FsOps σ ι π} (store : FileStore ops) {p : Proc ι} {place : Place ι}
  {bytes : List Byte}

/-! ## The file helpers -/

omit store in
theorem myArgfd_ofNat {i : Fin nofile} {f : Fin nfile} (h : p.ofile i = some f) :
    myArgfd p (BitVec.ofNat 32 i) = some (i, f) := by
  have hint : (BitVec.ofNat 32 i).toInt = (i : ℕ) :=
    toInt_ofNat_of_lt (lt_trans i.isLt (by decide))
  have hrange : 0 ≤ (BitVec.ofNat 32 i).toInt ∧ (BitVec.ofNat 32 i).toInt < nofile := by
    rw [hint]
    exact ⟨by omega, by exact_mod_cast i.isLt⟩
  rw [myArgfd, dif_pos hrange]
  simp only [hint, Int.toNat_natCast, Fin.eta, h, Option.map_some]

variable {omode : Word}

omit store in
/-- **The rule for the first half of `my_open`**: `create` or `namei` finds the inode, and
locking it changes nothing. -/
theorem myOpenFind_ensures_of {path : List Byte} {Start : Kern σ ι π → Prop}
    {Hit : ι → Kern σ ι π → Prop} (hbegin : Ensures Start (onFs ops.beginOp) (fun _ => Start))
    (hcreate : omode &&& oCreate ≠ 0 → Ensures Start (create ops path tFile 0 0) (IfSome Hit))
    (hnamei : omode &&& oCreate = 0 → ∀ k, Start k →
      Ensures (· = k) (onFs (ops.namei k.proc.cwd path)) (IfSome Hit))
    (hlock : ∀ ip, Ensures (Hit ip) (onFs (ops.ilock ip)) (fun _ => Hit ip)) :
    Ensures Start (myOpenFind ops path omode) (IfSome Hit) := by
  refine hbegin.bind fun _ => Ensures.get_bind fun k hk => .ite (fun hmode => ?_) fun hmode => ?_
  · refine ((hcreate hmode).imp (by rintro _ rfl; exact hk) fun _ _ h => h).bind fun r => ?_
    cases r with
    | none => exact (ensures_true _).bind fun _ => ensures_none
    | some ip => exact ensures_some fun k h => h ip rfl
  · refine (hnamei (not_not.mp hmode) k hk).bind fun r => ?_
    cases r with
    | none => exact (ensures_true _).bind fun _ => ensures_none
    | some ip =>
      refine ((hlock ip).imp (fun k h => h ip rfl) fun _ _ h => h).bind fun _ => ?_
      refine Ensures.get_bind fun k₁ hk₁ => .ite (fun _ => ?_) fun _ => ?_
      · exact (ensures_true _).bind fun _ => (ensures_true _).bind fun _ => ensures_none
      · exact ensures_some fun _ h => by rw [h]; exact hk₁

omit store in
/-- **The rule for the second half of `my_open`**: a free descriptor is given to a free
open file, which is then set up. -/
theorem myOpenInode_ensures_of {ip : ι} (Hit : Kern σ ι π → Prop)
    (Held : Fin nofile → Fin nfile → Kern σ ι π → Prop)
    (halloc : ∀ k i f file, Hit k → k.proc.ofile i = none →
      Held i f (setFd i (some f) (setFile f file k)))
    (hunlock : ∀ i f, Ensures (Held i f) (onFs (ops.iunlock ip)) (fun _ => Held i f))
    (hend : ∀ i f, Ensures (Held i f) (onFs ops.endOp) (fun _ => Held i f)) :
    Ensures Hit (myOpenInode ops ip omode)
      (fun fd k => fd ≠ -1 → ∃ i f k', fd = BitVec.ofNat 32 i.val ∧ Held i f k' ∧
        k = openedFile f ip omode k') := by
  refine Ensures.bind (Q := IfSome fun f k => ∃ k' file, Hit k' ∧ k = setFile f file k') ?_
    fun r => ?_
  · refine Ensures.get_bind fun k hk => ?_
    split
    · exact ensures_none
    case h_2 f _ =>
      exact Ensures.bind (Q := fun _ k₁ => ∃ k' file, Hit k' ∧ k₁ = setFile f file k')
        (.modify (f := fun _ => _) fun _ _ => ⟨k, _, hk, rfl⟩) fun _ => ensures_some fun _ h => h
  cases r with
  | none =>
    exact (ensures_true _).bind fun _ => (ensures_true _).bind fun _ =>
      .pure fun _ _ h => absurd rfl h
  | some f =>
    refine Ensures.imp (R := fun k => ∃ k' file, Hit k' ∧ k = setFile f file k') ?_
      (fun k h => h f rfl) fun _ _ h => h
    refine Ensures.bind (Q := IfSome fun i => Held i f) ?_ fun r => ?_
    · refine Ensures.get_bind fun k hk => ?_
      split
      · exact ensures_none
      case h_2 i hfind =>
        obtain ⟨k', file, hhit, rfl⟩ := hk
        have hfree : k'.proc.ofile i = none := by simpa [setFile] using List.find?_some hfind
        exact Ensures.bind (Q := fun _ => Held i f)
          (.modify (f := fun _ => _) fun _ _ => halloc k' i f file hhit hfree)
          fun _ => ensures_some fun _ h => h
    cases r with
    | none =>
      exact (ensures_true _).bind fun _ => (ensures_true _).bind fun _ =>
        (ensures_true _).bind fun _ => .pure fun _ _ h => absurd rfl h
    | some i =>
      refine ((hunlock i f).imp (fun k h => h i rfl) fun _ _ h => h).bind fun _ => ?_
      refine (hend i f).bind fun _ => ?_
      exact Ensures.bind (.modify fun k h => ⟨i, f, k, rfl, h, rfl⟩) fun _ => .pure fun _ h _ => h

/-- The process with a descriptor changed. -/
def withFd (p : Proc ι) (i : Fin nofile) (f : Option (Fin nfile)) : Proc ι :=
  { p with ofile := Function.update p.ofile i f }

/-- A descriptor that was free, taken and given back. -/
theorem withFd_withFd {i : Fin nofile} {f : Option (Fin nfile)} (h : p.ofile i = none) :
    withFd (withFd p i f) i none = p := by
  rw [withFd, withFd, Function.update_idem, ← h, Function.update_eq_self]

/-- What `my_open` needs: the file holds `bytes`, or, if it may be created, is not there
and `bytes` is empty. -/
def Openable (p : Proc ι) (place : Place ι) (omode : Word) (bytes : List Byte)
    (k : Kern σ ι π) : Prop :=
  store.Old p place bytes k ∧ (omode &&& oCreate = 0 → store.contents place k.fs = some bytes)

/-- A file that is there is found, and no other one, when it is not to be created. -/
theorem myOpenFind_named {ip : ι} (hmode : omode &&& oCreate = 0) (hcwd : p.cwd = place.1) :
    Ensures (store.Found p place bytes ip) (myOpenFind ops place.2 omode)
      (IfSome fun i k => store.Found p place bytes i k ∧ i = ip) := by
  have hstable : ∀ i, store.Stable fun k : Kern σ ι π => store.Found p place bytes i k ∧ i = ip :=
    fun i =>
      { inv := fun h => h.1.inv
        same := fun h hinv hs => ⟨store.found_stable.same h.1 hinv hs, h.2⟩ }
  refine myOpenFind_ensures_of (store.found_stable.quiet store.beginOp)
    (fun h => absurd hmode h) (fun _ k hk => ?_)
    fun i => ((hstable i).ilock i).imp (fun _ h => h) fun _ _ h => h.1
  refine Ensures.zoom fun k₁ hk₁ => ?_
  rintro s r s' rfl hrun i rfl
  rw [hk₁] at hrun ⊢
  rw [hk.proc, hcwd] at hrun
  obtain ⟨⟨hinv, hsame⟩, rfl⟩ := store.namei hk.inv hk.target hrun
  exact ⟨store.found_stable.same hk hinv hsame, rfl⟩

/-- The second half of `my_open` takes a free descriptor for the start of the file. -/
theorem myOpen_of_find {Start : Kern σ ι π → Prop} {P : ι → Prop}
    (hfind : Ensures Start (myOpenFind ops place.2 omode)
      (IfSome fun ip k => store.Found p place bytes ip k ∧ P ip)) :
    Ensures Start (myOpen ops place.2 omode)
      (fun fd k => fd ≠ -1 → ∃ i f ip, fd = BitVec.ofNat 32 i.val ∧ p.ofile i = none ∧
        store.OpenOn (withFd p i (some f)) place f ip 0 bytes k ∧ P ip) := by
  refine hfind.bind fun found => ?_
  cases found with
  | none => exact .pure fun _ _ h => absurd rfl h
  | some ip =>
    have hheld : ∀ i f, store.Stable fun k : Kern σ ι π => (p.ofile i = none ∧ P ip) ∧
        store.Found (withFd p i (some f)) place bytes ip k := fun i f =>
      { inv := fun h => h.2.inv
        same := fun h hinv hs => ⟨h.1, store.found_stable.same h.2 hinv hs⟩ }
    refine (myOpenInode_ensures_of (fun k => store.Found p place bytes ip k ∧ P ip)
      (fun i f k => (p.ofile i = none ∧ P ip) ∧
        store.Found (withFd p i (some f)) place bytes ip k) (fun k i f file h hfree => ?_)
      (fun i f => (hheld i f).quiet (store.iunlock ip))
      (fun i f => (hheld i f).quiet store.endOp)).imp (fun k h => h ip rfl) fun fd k h hfd => ?_
    · have hproc : (setFd i (some f) (setFile f file k)).proc = withFd k.proc i (some f) := rfl
      rw [h.1.proc] at hproc hfree
      exact ⟨⟨hfree, h.2⟩, ⟨hproc, h.1.inv, h.1.contents⟩, h.1.target⟩
    · obtain ⟨i, f, k', rfl, ⟨⟨hfree, hip⟩, hfound⟩, rfl⟩ := h hfd
      refine ⟨i, f, ip, rfl, hfree, ⟨hfound.proc, hfound.inv, ?_, ?_, hfound.target,
        hfound.contents⟩, hip⟩
      · simp [openedFile, setFile]
      · simp [openedFile, setFile]

/-- **`my_open`** takes a free descriptor for the start of the file, with what it held. -/
theorem myOpen_takes (hcwd : p.cwd = place.1) :
    Ensures (Openable store p place omode bytes) (myOpen ops place.2 omode)
      (fun fd k => fd ≠ -1 → ∃ i f ip, fd = BitVec.ofNat 32 i.val ∧ p.ofile i = none ∧
        store.OpenOn (withFd p i (some f)) place f ip 0 bytes k) := by
  have hstart : store.Stable (Openable store p place omode bytes) :=
    { inv := fun h => h.1.inv
      same := fun h hinv hs =>
        ⟨h.1.same hinv hs.toSameFiles, fun hmode => (hs.contents place).trans (h.2 hmode)⟩ }
  have hfind : Ensures (Openable store p place omode bytes) (myOpenFind ops place.2 omode)
      (IfSome fun ip k => store.Found p place bytes ip k ∧ True) := by
    by_cases hmode : omode &&& oCreate = 0
    · -- the file holds something, so the path names it
      intro k r k' hk hrun ip hr
      obtain ⟨t, htarget, -⟩ := Option.bind_eq_some_iff.mp (hk.2 hmode)
      have hfound : store.Found p place bytes t k := ⟨⟨hk.1.proc, hk.1.inv, hk.2 hmode⟩, htarget⟩
      exact ⟨(myOpenFind_named store hmode hcwd hfound hrun ip hr).1, trivial⟩
    · refine myOpenFind_ensures_of (hstart.quiet store.beginOp) (fun _ => ?_)
        (fun h => absurd h hmode) fun ip => ?_
      · exact (FileStore.create_ensures hcwd 0 0).imp (fun _ h => h.1)
          fun _ _ h ip hip => ⟨h ip hip, trivial⟩
      · exact (store.found_stable.ilock ip).imp (fun _ h => h.1) fun _ _ h => ⟨h.1, trivial⟩
  refine (myOpen_of_find store hfind).imp (fun _ h => h) fun fd k h hfd => ?_
  obtain ⟨i, f, ip, hi, hfree, hopened, -⟩ := h hfd
  exact ⟨i, f, ip, hi, hfree, hopened⟩

omit store in
/-- An opened file is readable unless it was opened for writing only. -/
theorem myOpen_readable {path : List Byte} :
    Ensures (fun _ => True) (myOpen ops path omode)
      (fun fd k => fd ≠ -1 → ∃ i f, fd = BitVec.ofNat 32 i.val ∧ k.proc.ofile i = some f ∧
        (k.ftable f).readable = decide (omode &&& oWronly = 0)) := by
  refine (ensures_true _).bind fun found => ?_
  cases found with
  | none => exact .pure fun _ _ h => absurd rfl h
  | some ip =>
    have hquiet : ∀ (x : EStateM String σ Unit) (i : Fin nofile) (f : Fin nfile),
        Ensures (fun k : Kern σ ι π => k.proc.ofile i = some f) (onFs x)
          (fun _ k => k.proc.ofile i = some f) := by
      intro x i f
      refine Ensures.zoom fun k hk => ?_
      rintro s a s' rfl hrun
      exact hk
    refine (myOpenInode_ensures_of (fun _ => True) (fun i f k => k.proc.ofile i = some f)
      (fun k i f file _ _ => by simp [setFd]) (hquiet _) (hquiet _)).imp (fun _ _ => trivial)
      fun fd k h hfd => ?_
    obtain ⟨i, f, k', rfl, hi, rfl⟩ := h hfd
    exact ⟨i, f, rfl, hi, by simp [openedFile, setFile]⟩

section

variable {i : Fin nofile} {f : Fin nfile} {ip : ι}

/-- **`my_write`** replaces the start of the file. -/
theorem myWrite_replaces (hi : p.ofile i = some f) {src : List Byte} (hlen : src.length < 2 ^ 31) :
    Ensures (store.OpenOn p place f ip 0 bytes) (myWrite ops (BitVec.ofNat 32 i.val) src)
      (fun w k => w ≠ -1 →
        store.OpenOn p place f ip src.length (src ++ bytes.drop src.length) k) := by
  refine Ensures.get_bind fun k hk => ?_
  rw [← hk.proc] at hi
  simp only [myArgfd_ofNat hi]
  exact (store.filewrite_ensures hlen).imp (by rintro _ rfl; exact hk) fun _ _ h => h

/-- **`my_read`** reads the file from its start. -/
theorem myRead_reads (hi : p.ofile i = some f) {n : Word} :
    Ensures (store.OpenOn p place f ip 0 bytes) (myRead ops (BitVec.ofNat 32 i.val) n)
      (fun r k => r.1 ≠ -1 → r = (BitVec.ofNat 32 r.2.length, bytes.take n.toNat) ∧
        ∃ pos, store.OpenOn p place f ip pos bytes k) := by
  refine Ensures.get_bind fun k hk => ?_
  rw [← hk.proc] at hi
  simp only [myArgfd_ofNat hi]
  exact store.fileread_ensures.imp (by rintro _ rfl; exact hk) fun _ _ h => h

/-- **`my_close`** frees the descriptor and keeps the contents. -/
theorem myClose_frees (hi : p.ofile i = some f) {pos : ℕ} :
    Ensures (store.OpenOn p place f ip pos bytes) (myClose ops (BitVec.ofNat 32 i.val))
      (fun _ => store.Found (withFd p i none) place bytes ip) := by
  refine Ensures.get_bind fun k hk => ?_
  rw [← hk.proc] at hi
  simp only [myArgfd_ofNat hi]
  refine Ensures.bind (Q := fun _ k => (k.ftable f).type = .inode ip ∧
    store.Found (withFd p i none) place bytes ip k) (.modify ?_) fun _ => ?_
  · rintro k₁ rfl
    have hproc : (setFd i none k₁).proc = withFd k₁.proc i none := rfl
    rw [hk.proc] at hproc
    exact ⟨hk.type, ⟨hproc, hk.inv, hk.contents⟩, hk.target⟩
  · exact store.fileclose_ensures.bind fun _ => .pure fun _ h => h

end

/-! ## Three calls in a row -/

section

variable {k k₁ k₂ k₃ : Kern σ ι π} {fd w closed : Word}

/-- Descriptor `fd` is open on the inode `ip`. -/
def OpenedOn (k : Kern σ ι π) (fd : Word) (ip : ι) : Prop :=
  ∃ i f, fd = BitVec.ofNat 32 i.val ∧ k.proc.ofile i = some f ∧ (k.ftable f).type = .inode ip

section

variable (place : Place ι) {src : List Byte} (hlen : src.length < 2 ^ 31)
  (hcwd : p.cwd = place.1) (hk : store.Old p place bytes k)
  (hopen : (myOpen ops place.2 (oCreate ||| oRdwr)).run k = .ok fd k₁) (hfd : fd ≠ -1)
  (hwrite : (myWrite ops fd src).run k₁ = .ok w k₂) (hw : w ≠ -1)
  (hclose : (myClose ops fd).run k₂ = .ok closed k₃)
include hlen hcwd hk hopen hfd hwrite hw hclose

/-- The three calls of a save leave the process as it was, and the new bytes in place of
the old ones at the start of the file that was opened. -/
theorem overwrite_found : ∃ ip, OpenedOn k₁ fd ip ∧
    store.Found p place (src ++ bytes.drop src.length) ip k₃ := by
  have hopenable : Openable store p place (oCreate ||| oRdwr) bytes k :=
    ⟨hk, fun h => absurd h (by decide)⟩
  obtain ⟨i, f, ip, rfl, hfree, hopened⟩ := myOpen_takes store hcwd hopenable hopen hfd
  have hi : (withFd p i (some f)).ofile i = some f := by simp [withFd]
  have hwritten := myWrite_replaces store hi hlen hopened hwrite hw
  have hfound := myClose_frees store hi hwritten hclose
  rw [withFd_withFd hfree] at hfound
  exact ⟨ip, ⟨i, f, rfl, by rw [hopened.proc]; exact hi, hopened.type⟩, hfound⟩

/-- The file holds the new bytes. -/
theorem overwrite_holds : store.Holds p place (some (src ++ bytes.drop src.length)) k₃ := by
  obtain ⟨ip, -, hfound⟩ :=
    overwrite_found store place hlen hcwd hk hopen hfd hwrite hw hclose
  exact hfound.toHolds

end

/-- A file that is opened, or created, is read up to the given size. -/
theorem myRead_opened (place : Place ι) {n : Word} {r : Word × List Byte} (hcwd : p.cwd = place.1)
    (hk : store.Old p place bytes k)
    (hopen : (myOpen ops place.2 (oCreate ||| oRdwr)).run k = .ok fd k₁) (hfd : fd ≠ -1)
    (hread : (myRead ops fd n).run k₁ = .ok r k₂) : r.2 = bytes.take n.toNat := by
  have hopenable : Openable store p place (oCreate ||| oRdwr) bytes k :=
    ⟨hk, fun h => absurd h (by decide)⟩
  obtain ⟨i, f, ip, rfl, -, hopened⟩ := myOpen_takes store hcwd hopenable hopen hfd
  have hi : k₁.proc.ofile i = some f := by
    rw [hopened.proc]
    simp [withFd]
  obtain ⟨j, g, hj, hg, hreadable⟩ := myOpen_readable trivial hopen hfd
  obtain rfl : i = j := by
    have hlt : ∀ i : Fin nofile, i.val < 2 ^ 31 := fun i => lt_trans i.isLt (by decide)
    have heq := congrArg BitVec.toNat hj
    rw [toNat_ofNat_of_lt (hlt i), toNat_ofNat_of_lt (hlt j)] at heq
    exact Fin.ext heq
  obtain rfl := Option.some.inj (hi.symm.trans hg)
  rw [myRead, EStateM.run_bind, EStateM.run_get] at hread
  dsimp only at hread
  rw [myArgfd_ofNat hi] at hread
  have hr := (store.fileread_readable hopened (hreadable.trans (by decide)) rfl hread).1
  exact (Prod.ext_iff.mp hr).2

/-- The three calls of a load leave the process and the file as they were, and read the
file up to the given size. -/
theorem load_reads (place : Place ι) {n : Word} {r : Word × List Byte} (hcwd : p.cwd = place.1)
    (hk : store.Holds p place (some bytes) k)
    (hopen : (myOpen ops place.2 oRdwr).run k = .ok fd k₁) (hfd : fd ≠ -1)
    (hread : (myRead ops fd n).run k₁ = .ok r k₂) (hr : r.1 ≠ -1)
    (hclose : (myClose ops fd).run k₂ = .ok closed k₃) :
    r = (BitVec.ofNat 32 r.2.length, bytes.take n.toNat) ∧
      store.Holds p place (some bytes) k₃ := by
  have hopenable : Openable store p place oRdwr bytes k :=
    ⟨⟨hk.proc, hk.inv, by rw [hk.contents]; rfl⟩, fun _ => hk.contents⟩
  obtain ⟨i, f, ip, rfl, hfree, hopened⟩ := myOpen_takes store hcwd hopenable hopen hfd
  have hi : (withFd p i (some f)).ofile i = some f := by simp [withFd]
  obtain ⟨hbytes, pos, hpos⟩ := myRead_reads store hi hopened hread hr
  have hholds := (myClose_frees store hi hpos hclose).toHolds
  rw [withFd_withFd hfree] at hholds
  exact ⟨hbytes, hholds⟩

end

end

section

variable {σ ι π : Type} {ops : FsOps σ ι π} {m m' : Machine σ ι π}

/-! ## Saving -/

/-- The error exit does not return `0`. -/
theorem recordFail_ne_zero (hrun : (recordFail : SysM σ ι π Word).run m = .ok 0 m') : False := by
  have hfail : (recordFail : SysM σ ι π Word).run m = .ok (-1) _ := rfl
  rw [hfail] at hrun
  injection hrun with hr _
  exact absurd hr (by decide)

/-- **Saving**, when it returns `0`: the three file operations succeed, and the session is
as it was. -/
theorem saveSession_eq_zero (hrun : (saveSession ops).run m = .ok 0 m') :
    ∃ fd w closed k₁ k₂ k₃,
      (myOpen ops m.core.session.recordFilename (oCreate ||| oRdwr)).run m.kern = .ok fd k₁ ∧
      fd ≠ -1 ∧
      (myWrite ops fd (slice m.core.session.buffer 0 m.core.session.bufferPos.toNat)).run k₁
        = .ok w k₂ ∧ w ≠ -1 ∧
      (myClose ops fd).run k₂ = .ok closed k₃ ∧ m' = { m with kern := k₃ } := by
  rw [saveSession, EStateM.run_bind, EStateM.run_get] at hrun
  dsimp only at hrun
  obtain ⟨fd, m₁, hopen, hrun⟩ := run_bind_eq_ok.mp hrun
  obtain ⟨k₁, hopen', rfl⟩ := run_zoom_eq_ok.mp hopen
  by_cases hfd : fd = -1
  · rw [if_pos hfd] at hrun
    exact absurd hrun fun h => recordFail_ne_zero h
  rw [if_neg hfd] at hrun
  obtain ⟨w, m₂, hwrite, hrun⟩ := run_bind_eq_ok.mp hrun
  obtain ⟨k₂, hwrite', rfl⟩ := run_zoom_eq_ok.mp hwrite
  by_cases hw : w = -1
  · rw [if_pos hw] at hrun
    exact absurd hrun fun h => recordFail_ne_zero h
  rw [if_neg hw] at hrun
  obtain ⟨closed, m₃, hclose, hrun⟩ := run_bind_eq_ok.mp hrun
  obtain ⟨k₃, hclose', rfl⟩ := run_zoom_eq_ok.mp hclose
  by_cases hclosed : closed = -1
  · rw [if_pos hclosed] at hrun
    exact absurd hrun fun h => recordFail_ne_zero h
  rw [if_neg hclosed] at hrun
  injection hrun with _ hm'
  exact ⟨fd, w, closed, k₁, k₂, k₃, hopen', hfd, hwrite', hw, hclose', hm'.symm⟩

/-- Saving, when each of the three file operations succeeds. -/
theorem saveSession_of_ok {fd w closed : Word} {k₁ k₂ k₃ : Kern σ ι π}
    (hopen : (myOpen ops m.core.session.recordFilename (oCreate ||| oRdwr)).run m.kern = .ok fd k₁)
    (hfd : fd ≠ -1)
    (hwrite : (myWrite ops fd (slice m.core.session.buffer 0 m.core.session.bufferPos.toNat)).run k₁
      = .ok w k₂) (hw : w ≠ -1)
    (hclose : (myClose ops fd).run k₂ = .ok closed k₃) (hclosed : closed ≠ -1) :
    (saveSession ops).run m = .ok m.core.session.recordSyscalls { m with kern := k₃ } := by
  rw [saveSession, EStateM.run_bind, EStateM.run_get]
  simp only
  rw [run_bind_of_ok (run_onKern_of_ok hopen), if_neg hfd,
    run_bind_of_ok (run_onKern_of_ok (m := { m with kern := k₁ }) hwrite), if_neg hw,
    run_bind_of_ok (run_onKern_of_ok (m := { m with kern := k₂ }) hclose), if_neg hclosed]
  rfl

/-! ## Loading -/

/-- The replay that `m` starts finds `data` in the file of that name, and can open, read and
close it, which leads to `m'`. -/
structure Reloads (store : FileStore ops) (data : Option (List Byte)) (m : Machine σ ι π)
    (filename : List Byte) (m' : Machine σ ι π) : Prop where
  inv : store.Inv m.kern.fs
  name : argstr m.kern.proc 0 = some filename
  file : store.contents (m.kern.proc.cwd, strcpy filename 255) m.kern.fs = data
  loads : ∃ rStatus, (loadSession ops).run (m.startReplay filename) = .ok (some rStatus) m'

/-- **Loading.**  When the file part of `sys_replay_start` succeeds, the file, up to the
capacity of the buffer, is stored at the start of the buffer, and the number of those
bytes is returned. -/
theorem Reloads.load {store : FileStore ops} {data filename : List Byte}
    (h : Reloads store (some data) m filename m') :
    (loadSession ops).run (m.startReplay filename)
        = .ok (some (BitVec.ofNat 32 (data.take maxFileSize).length)) m' ∧
      m'.core.session.buffer = overlay m.core.session.buffer 0 (data.take maxFileSize) := by
  obtain ⟨r, hload⟩ := h.loads
  obtain ⟨fd, bytes', closed, k₁, k₂, k₃, hopen, hfd, hread, hr, hclose, -, hm'⟩ :=
    loadSession_eq_some.mp hload
  obtain ⟨hbytes, -⟩ := load_reads store (m.kern.proc.cwd, strcpy filename 255) rfl
    ⟨rfl, h.inv, h.file⟩ hopen hfd hread hr hclose
  obtain ⟨hstatus, rfl⟩ := Prod.mk.inj hbytes
  rw [hstatus] at hload
  refine ⟨hload, ?_⟩
  rw [hm']
  rfl

/-! ## The stop call -/

/-- The bytes to which `sys_record_stop` encodes the first `n` records. -/
def Core.encoding (c : Core) (n : ℕ) : List Byte :=
  encodeLog (logEntries c.session.recordedScrs n 0)

/-- The recorder's state between encoding and writing. -/
def Core.packed (c : Core) (bytes : List Byte) : Core :=
  { c.rewind.write bytes with
    session := { (c.rewind.write bytes).session with recordSyscalls := 0 } }

section

variable {n : ℕ} (henc : EncoderInput m.core n)
  (hpid : m.core.session.rrPid = m.kern.proc.pid)
include henc hpid

/-- A log that fits is encoded and saved. -/
theorem sysRecordStop_fits (hfit : (m.core.encoding n).length ≤ maxFileSize) :
    (sysRecordStop ops).run m
      = (saveSession ops).run { m with core := m.core.packed (m.core.encoding n) } := by
  have hrec : isRecording m.core.session m.kern.proc.pid = true := by
    simp [isRecording, henc.record, hpid]
  have hpack := (packScrs_record m.core henc.record henc.replay n henc.idx henc.le henc.wf).1 hfit
  rw [sysRecordStop, EStateM.run_bind, EStateM.run_get]
  simp only [hrec, if_true]
  rw [run_bind_of_ok (run_onCore_of_ok hpack)]
  rfl

/-- A log that does not fit is stored past the end of the buffer. -/
theorem sysRecordStop_overflows (hfit : maxFileSize < (m.core.encoding n).length) :
    ∃ m', (sysRecordStop ops).run m = .error .outOfBounds m' := by
  have hrec : isRecording m.core.session m.kern.proc.pid = true := by
    simp [isRecording, henc.record, hpid]
  obtain ⟨c, hpack⟩ :=
    (packScrs_record m.core henc.record henc.replay n henc.idx henc.le henc.wf).2 hfit
  rw [sysRecordStop, EStateM.run_bind, EStateM.run_get]
  simp only [hrec, if_true]
  exact ⟨_, run_bind_of_error (run_onCore_of_error hpack)⟩

/-- **A recording that is stopped** with result `0`, and whose log fits in the buffer,
leaves the encoding of the log at the start of the file that the kept name stands for,
with the rest of what the file held behind it. -/
theorem sysRecordStop_saves (store : FileStore ops) (hinv : store.Inv m.kern.fs)
    (hfit : (m.core.encoding n).length ≤ maxFileSize)
    (hstop : (sysRecordStop ops).run m = .ok 0 m') :
    m'.core = m.core.packed (m.core.encoding n) ∧
    ∃ fd k₁ ip, (myOpen ops m.core.session.recordFilename (oCreate ||| oRdwr)).run m.kern
        = .ok fd k₁ ∧ OpenedOn k₁ fd ip ∧
      store.Found m.kern.proc (m.kern.proc.cwd, m.core.session.recordFilename)
        (m.core.encoding n ++ ((store.contents (m.kern.proc.cwd,
          m.core.session.recordFilename) m.kern.fs).getD []).drop (m.core.encoding n).length)
        ip m'.kern := by
  rw [sysRecordStop_fits henc hpid hfit] at hstop
  obtain ⟨fd, w, closed, k₁, k₂, k₃, hopen, hfd, hwrite, hw, hclose, rfl⟩ :=
    saveSession_eq_zero hstop
  have hcursor : (m.core.packed (m.core.encoding n)).session.bufferPos.toNat
      = (m.core.encoding n).length := by
    simp only [Core.packed, Core.write, Core.rewind, Int.zero_add, Int.toNat_natCast]
  have hbuffer : slice (m.core.packed (m.core.encoding n)).session.buffer 0
      (m.core.encoding n).length = m.core.encoding n := slice_overlay_same _ _ _
  rw [hcursor, hbuffer] at hwrite
  obtain ⟨ip, hopened, hfound⟩ := overwrite_found store
    (m.kern.proc.cwd, m.core.session.recordFilename) (lt_of_le_of_lt hfit (by decide)) rfl
    ⟨rfl, hinv, rfl⟩ hopen hfd hwrite hw hclose
  exact ⟨rfl, fd, k₁, ip, hopen, hopened, hfound⟩

end

/-- **Starting a replay** of a file that begins with the encoding of a log. -/
theorem Reloads.replayReady {store : FileStore ops} {filename after : List Byte} {es : List Entry}
    (h : Reloads store (some (encodeLog es ++ after)) m filename m')
    (hes : ∀ e ∈ es, e.WellFormed) (hlen : es.length ≤ maxScrs)
    (hfit : (encodeLog es).length ≤ maxFileSize) :
    ∃ c, (sysReplayStart ops).run m = .ok 1 { m' with core := c } ∧
      ReplayReady c m.kern.proc.pid (m.installs es) ∧ c.killed = m.core.killed := by
  have htake : (encodeLog es ++ after).take maxFileSize
      = encodeLog es ++ after.take (maxFileSize - (encodeLog es).length) := by
    rw [List.take_append, List.take_of_length_le hfit]
  obtain ⟨hload, hbuffer⟩ := h.load
  have hslice : slice m'.core.session.buffer 0 ((encodeLog es ++ after).take maxFileSize).length
      = (encodeLog es ++ after).take maxFileSize := by
    rw [hbuffer]
    exact slice_overlay_same _ _ _
  rw [htake, List.length_append, slice_add] at hslice
  refine sysReplayStart_of_load h.name hload hes hlen hfit ?_
    (List.append_inj hslice (length_slice _ _ _)).1
  have hle : ((encodeLog es ++ after).take maxFileSize).length ≤ maxFileSize := by simp
  rw [toInt_ofNat_of_lt (lt_of_le_of_lt hle (by decide)), htake, List.length_append]
  omega

end

end V3
