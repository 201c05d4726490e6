/-
# Paths of `fs.c` as names of files

`NameLaws` for the modelled lookup of names.  A path is resolved element by element through
the bytes of the directories, so what it names depends on these bytes only, and every
operation of `fs.c` that does not write to a directory leaves it as it is.  `ialloc` takes
an inode that no entry names, and `dirlink` adds one name and keeps the others.

The directories are in order, `Fs.Tidy`, when a directory is a whole number of entries and
has a link, and an entry is of an inode that is not free.  It leaves out a directory that
has been removed while it is somebody's working directory: its entry `..` may be of a freed
inode.
-/
import Xv6Recorder.FsEntries
import Xv6Recorder.FsStore

open Bytes StateError

namespace Xv6

variable {g : Geometry} {s s' : Fs} {ip dp : ℕ} {name path : List Byte} {parent : Bool}

/-! ## What a path names -/

/-- The inode that `namexLoop` comes to, by the bytes of the directories. -/
def resolve (g : Geometry) (s : Fs) (parent : Bool) : (fuel ip : ℕ) → (path : List Byte) →
    Option (ℕ × List Byte)
  | 0, _, _ => none
  | fuel + 1, ip, path =>
    match skipelem path with
    | none => if parent then none else some (ip, [])
    | some (elem, rest) =>
      if (s.node ip).type ≠ tDir then none
      else if parent ∧ rest = [] then some (ip, elem)
      else (lookup (s.bytes g ip) elem).bind fun next => resolve g s parent fuel next rest

/-- Where a path starts. -/
def start (cwd : ℕ) (path : List Byte) : ℕ := if path.head? = some 47 then rootino else cwd

/-- The inode that a path names from a working directory. -/
def target (g : Geometry) (a : Place ℕ) (s : Fs) : Option ℕ :=
  let path := cstr a.2
  if (s.node (start a.1 path)).type = tDir then
    (resolve g s false (path.length + 1) (start a.1 path) path).map Prod.fst
  else none

/-- The path ends with the entry `name` of the directory `dp`. -/
def EndsIn (g : Geometry) (a : Place ℕ) (s : Fs) (dp : ℕ) (name : List Byte) : Prop :=
  resolve g s true ((cstr a.2).length + 1) (start a.1 (cstr a.2)) (cstr a.2) = some (dp, name)

/-- A lookup survives when directories only get more names. -/
theorem resolve_mono (htype : ∀ ip, (s.node ip).type = tDir → (s'.node ip).type = tDir)
    (hlookup : ∀ ip name x, (s.node ip).type = tDir → lookup (s.bytes g ip) name = some x →
      lookup (s'.bytes g ip) name = some x) {r : ℕ × List Byte} (fuel : ℕ)
    (h : resolve g s parent fuel ip path = some r) :
    resolve g s' parent fuel ip path = some r := by
  induction fuel generalizing ip path with
  | zero => cases h
  | succ fuel ih =>
    rw [resolve] at h ⊢
    split at h
    · exact h
    · split at h
      · cases h
      case isFalse hdir =>
      rw [not_not] at hdir
      rw [if_neg (not_not.mpr (htype _ hdir))]
      split at h
      case isTrue hlast => rwa [if_pos hlast]
      case isFalse hlast =>
        obtain ⟨next, hnext, hrest⟩ := Option.bind_eq_some_iff.mp h
        rw [if_neg hlast, hlookup _ _ _ hdir hnext, Option.bind_some]
        exact ih hrest

/-- The same inodes are directories, with the same bytes. -/
structure Fs.SamePaths (g : Geometry) (s s' : Fs) : Prop where
  type : ∀ ip, (s'.node ip).type = tDir ↔ (s.node ip).type = tDir
  bytes : ∀ ip, (s.node ip).type = tDir → s'.bytes g ip = s.bytes g ip

theorem Fs.SameDirs.samePaths (h : s.SameDirs g s') : s.SamePaths g s' where
  type ip := by rw [h.type]
  bytes ip hdir := h.bytes ip (by rw [hdir]; decide)

theorem Fs.SamePaths.resolve_eq (h : s.SamePaths g s') (fuel : ℕ) :
    resolve g s' parent fuel ip path = resolve g s parent fuel ip path := by
  refine Option.ext fun r => ⟨fun hr => ?_, fun hr => ?_⟩
  · refine resolve_mono (fun i hi => (h.type i).mp hi) (fun i name x hi hx => ?_) fuel hr
    rwa [← h.bytes i ((h.type i).mp hi)]
  · refine resolve_mono (fun i hi => (h.type i).mpr hi) (fun i name x hi hx => ?_) fuel hr
    rwa [h.bytes i hi]

theorem Fs.SamePaths.target_eq (h : s.SamePaths g s') (a : Place ℕ) :
    target g a s' = target g a s := by
  simp only [target, h.type, h.resolve_eq]

theorem Fs.SamePaths.endsIn (h : s.SamePaths g s') {a : Place ℕ} (ha : EndsIn g a s dp name) :
    EndsIn g a s' dp name := by
  rw [EndsIn, h.resolve_eq]
  exact ha

/-! ## The elements of a path -/

/-- `skipelem` takes something off the path, and copies its bytes. -/
theorem skipelem_eq_some {elem rest : List Byte} (h : skipelem path = some (elem, rest)) :
    rest.length < path.length ∧ (∀ b ∈ elem, b ∈ path) ∧ ∀ b ∈ rest, b ∈ path := by
  simp only [skipelem] at h
  split at h
  · cases h
  case isFalse hne =>
  obtain ⟨helem, hrest⟩ := Prod.mk.inj (Option.some.inj h)
  have hsuffix : (path.dropWhile (· = 47)) <:+ path := List.dropWhile_suffix _
  refine ⟨?_, fun b hb => ?_, fun b hb => ?_⟩
  · -- the element has at least one byte
    have hfirst := List.head?_dropWhile_not (fun b : Byte => decide (b = 47)) path
    rcases hp : path.dropWhile (· = 47) with _ | ⟨c, p⟩
    · exact absurd hp hne
    · rw [hp] at hfirst
      have hc : c ≠ 47 := by simpa using hfirst
      rw [hp, List.dropWhile_cons_of_pos (by simpa using hc)] at hrest
      have hle : rest.length ≤ p.length := by
        rw [← hrest]
        exact ((List.dropWhile_suffix _).trans (List.dropWhile_suffix _)).length_le
      have hlen := hsuffix.length_le
      rw [hp, List.length_cons] at hlen
      omega
  · rw [← helem] at hb
    exact hsuffix.subset ((List.takeWhile_prefix _).subset (List.mem_of_mem_take hb))
  · rw [← hrest] at hb
    exact hsuffix.subset ((List.dropWhile_suffix _).subset ((List.dropWhile_suffix _).subset hb))

theorem zero_not_mem_cstr (l : List Byte) : 0 ∉ cstr l := by
  intro h
  have hall := List.all_eq_true.mp (List.all_takeWhile (p := fun b : Byte => decide (b ≠ 0)) (l := l))
  simpa using hall 0 h

/-- **A path with a parent**: it starts and ends in a directory, and names what the last
element means there. -/
theorem resolve_parent (fuel : ℕ) (hfuel : path.length < fuel) (hzero : 0 ∉ path)
    (h : resolve g s true fuel ip path = some (dp, name)) :
    (s.node ip).type = tDir ∧ (s.node dp).type = tDir ∧ 0 ∉ name ∧
      resolve g s false fuel ip path = (lookup (s.bytes g dp) name).map fun next => (next, []) := by
  induction fuel generalizing ip path with
  | zero => cases h
  | succ fuel ih =>
    rw [resolve] at h ⊢
    rcases hskip : skipelem path with _ | ⟨elem, rest⟩
    · rw [hskip] at h
      cases h
    rw [hskip] at h
    dsimp only at h ⊢
    obtain ⟨hlen, helem, hrest⟩ := skipelem_eq_some hskip
    split at h
    · cases h
    case isFalse hdir =>
    rw [not_not] at hdir
    rw [if_neg (not_not.mpr hdir), if_neg (fun hlast => Bool.false_ne_true hlast.1)]
    split at h
    case isTrue hlast =>
      obtain ⟨rfl, rfl⟩ := Prod.mk.inj (Option.some.inj h)
      refine ⟨hdir, hdir, fun hmem => hzero (helem 0 hmem), ?_⟩
      obtain ⟨n, rfl⟩ : ∃ n, fuel = n + 1 := ⟨fuel - 1, by omega⟩
      rw [hlast.2]
      cases lookup (s.bytes g ip) elem <;> rfl
    case isFalse hlast =>
      obtain ⟨next, hnext, hnamed⟩ := Option.bind_eq_some_iff.mp h
      obtain ⟨-, hdp, hname, htarget⟩ :=
        ih (by omega) (fun hmem => hzero (hrest 0 hmem)) hnamed
      exact ⟨hdir, hdp, hname, by rw [hnext, Option.bind_some, htarget]⟩

theorem EndsIn.dir_name {a : Place ℕ} (h : EndsIn g a s dp name) :
    (s.node dp).type = tDir ∧ 0 ∉ name := by
  obtain ⟨-, hdp, hname, -⟩ := resolve_parent _ (Nat.lt_succ_self _) (zero_not_mem_cstr _) h
  exact ⟨hdp, hname⟩

theorem EndsIn.target_eq {a : Place ℕ} (h : EndsIn g a s dp name) :
    target g a s = lookup (s.bytes g dp) name := by
  obtain ⟨hstart, -, -, hresolve⟩ := resolve_parent _ (Nat.lt_succ_self _) (zero_not_mem_cstr _) h
  rw [target, if_pos hstart, hresolve, Option.map_map]
  exact Option.map_id'

theorem cstr_head {l : List Byte} (h : l.head? = some 47) : (cstr l).head? = some 47 := by
  rcases l with _ | ⟨c, l⟩
  · cases h
  · obtain rfl := Option.some.inj h
    rfl

theorem target_absolute {cwd cwd' : ℕ} (h : Absolute path) :
    target g (cwd, path) s = target g (cwd', path) s := by
  simp only [target, start, if_pos (cstr_head h)]

/-! ## Directories in order -/

/-- **The directories are in order.** -/
structure Fs.Tidy (g : Geometry) (s : Fs) : Prop where
  ninodes : s.ninodes.toNat ≤ 2 ^ 16
  typed : s.Typed
  linked : ∀ dp, (s.node dp).type = tDir → (s.node dp).nlink ≠ 0
  whole : ∀ dp, (s.node dp).type = tDir → direntSize ∣ (s.bytes g dp).length
  entries : ∀ {dp name ip}, (s.node dp).type = tDir → lookup (s.bytes g dp) name = some ip →
    (s.node ip).type ≠ 0 ∧ ((s.node ip).type = tFile → (s.node ip).nlink ≠ 0)

theorem Fs.Tidy.congr (h : s.Tidy g) (hdirs : s.SameDirs g s') : s'.Tidy g where
  ninodes := by rw [hdirs.ninodes]; exact h.ninodes
  typed := hdirs.typed h.typed
  linked dp hdp := by
    rw [hdirs.type] at hdp
    exact hdirs.linked dp (h.linked dp hdp)
  whole dp hdp := by
    rw [hdirs.type] at hdp
    rw [hdirs.samePaths.bytes dp hdp]
    exact h.whole dp hdp
  entries {dp name ip} hdp hip := by
    rw [hdirs.type] at hdp
    rw [hdirs.samePaths.bytes dp hdp] at hip
    obtain ⟨htype, hlink⟩ := h.entries hdp hip
    rw [hdirs.type]
    exact ⟨htype, fun hfile => hdirs.linked ip (hlink hfile)⟩

/-- What a path comes to from a directory has a type, and a regular file has a link. -/
theorem Fs.Tidy.resolve_type (h : s.Tidy g) {x : List Byte} {next : ℕ} (fuel : ℕ)
    (hdir : (s.node ip).type ≠ 0 ∧ ((s.node ip).type = tFile → (s.node ip).nlink ≠ 0))
    (hr : resolve g s false fuel ip path = some (next, x)) :
    (s.node next).type ≠ 0 ∧ ((s.node next).type = tFile → (s.node next).nlink ≠ 0) := by
  induction fuel generalizing ip path with
  | zero => cases hr
  | succ fuel ih =>
    rw [resolve] at hr
    split at hr
    · obtain ⟨rfl, -⟩ := Prod.mk.inj (Option.some.inj hr)
      exact hdir
    · split at hr
      · cases hr
      case isFalse htype =>
      rw [if_neg (fun hlast => Bool.false_ne_true hlast.1)] at hr
      obtain ⟨n, hn, hrest⟩ := Option.bind_eq_some_iff.mp hr
      exact ih (h.entries (not_not.mp htype) hn) hrest

theorem Fs.Tidy.target_type (h : s.Tidy g) {a : Place ℕ} (ha : target g a s = some ip) :
    (s.node ip).type ≠ 0 ∧ ((s.node ip).type = tFile → (s.node ip).nlink ≠ 0) := by
  simp only [target] at ha
  split at ha
  case isFalse => cases ha
  case isTrue hstart =>
  obtain ⟨⟨next, x⟩, hr, rfl⟩ := Option.map_eq_some_iff.mp ha
  refine h.resolve_type _ ⟨?_, fun hfile => ?_⟩ hr
  · rw [hstart]
    decide
  · rw [hstart] at hfile
    exact absurd hfile (by decide)

/-- Places are looked up in the directories. -/
def pathNaming (g : Geometry) : Naming g where
  Target := target g
  Parent := EndsIn g
  Tidy := Fs.Tidy g
  target_congr hdirs := hdirs.samePaths.target_eq
  parent_congr hdirs _ _ _ h := hdirs.samePaths.endsIn h
  tidy_congr hdirs h := h.congr hdirs
  target_absolute h := target_absolute h
  target_linked h htarget := (h.target_type htarget).2
  parent_linked h hparent := h.linked _ hparent.dir_name.1

/-! ## Counting references -/

/-- Nothing but references, and what is in the cache, has changed. -/
structure Fs.Still (g : Geometry) (s s' : Fs) : Prop where
  inv : s'.Inv g
  ninodes : s'.ninodes = s.ninodes
  typed : s.Typed → s'.Typed
  node : s'.node = s.node
  bytes : s'.bytes g = s.bytes g

theorem Fs.Still.refl (h : s.Inv g) : s.Still g s := ⟨h, rfl, id, rfl, rfl⟩

theorem Fs.Still.trans {s'' : Fs} (h : s.Still g s') (h' : s'.Still g s'') : s.Still g s'' :=
  ⟨h'.inv, h'.ninodes.trans h.ninodes, h'.typed ∘ h.typed, h'.node.trans h.node,
    h'.bytes.trans h.bytes⟩

theorem Fs.Still.sameDirs (h : s.Still g s') : s.SameDirs g s' :=
  Fs.sameDirs_of_eq h.ninodes h.typed h.node h.bytes

theorem Fs.Still.tidy (h : s.Still g s') (htidy : s.Tidy g) : s'.Tidy g := htidy.congr h.sameDirs

theorem Fs.Still.quiet (h : s.Still g s') (htidy : s.Tidy g) :
    (pathNaming g).Inv s' ∧ (pathNaming g).view.Same s s' :=
  ⟨⟨h.inv, h.tidy htidy⟩, (pathNaming g).same h.sameDirs h.node h.bytes⟩

/-- References are not looked at. -/
theorem Fs.still_ref (h : s.Inv g) (ref : ℕ → ℤ) : s.Still g { s with ref } :=
  ⟨⟨⟨h.sound.owns, h.sound.boot⟩, h.below, h.coherent⟩, rfl, id, rfl, rfl⟩

/-- An inode that leaves the cache is on disk as it was. -/
theorem Fs.still_invalid (h : s.Inv g) (ip : ℕ) :
    s.Still g { s with valid := Function.update s.valid ip false } := by
  have hnode : Fs.node { s with valid := Function.update s.valid ip false } = s.node := by
    funext i
    rw [Fs.node, Fs.node]
    by_cases hi : i = ip
    · subst hi
      simp only [Function.update_self, Bool.false_eq_true, if_false]
      split
      case isTrue hv => exact (h.coherent i hv).symm
      case isFalse => rfl
    · simp only [Function.update_of_ne hi]
  have hvalid : ∀ i, Function.update s.valid ip false i = true → s.valid i = true := by
    intro i hi
    by_cases hip : i = ip
    · rw [hip, Function.update_self] at hi
      cases hi
    · rwa [Function.update_of_ne hip] at hi
  have hsame := Fs.sameNodes_of_eq hnode
  exact ⟨hsame.inv rfl h rfl fun i hi => h.coherent i (hvalid i hi), rfl,
    fun htyped i hi => by rw [hnode]; exact htyped i (hvalid i hi), hnode, hsame.bytes rfl⟩

/-- **`iget`** keeps the other inodes in the cache. -/
theorem iget_eq_ok (h : s.Inv g) (hrun : (iget ip).run s = .ok () s') :
    s.Still g s' ∧ ∀ i, i ≠ ip → s'.valid i = s.valid i := by
  rw [iget, EStateM.run_bind, EStateM.run_get] at hrun
  dsimp only at hrun
  split at hrun
  · injection hrun with _ hs
    rw [← hs]
    exact ⟨Fs.still_ref h _, fun _ _ => rfl⟩
  · split at hrun
    · cases hrun
    · injection hrun with _ hs
      rw [← hs]
      exact ⟨(Fs.still_invalid h ip).trans (Fs.still_ref (Fs.still_invalid h ip).inv _),
        fun i hi => Function.update_of_ne hi _ _⟩

/-- **`iput`** of an inode with a link. -/
theorem iput_eq_ok (h : s.Inv g) (hlink : (s.node ip).nlink ≠ 0)
    (hrun : (iput g ip).run s = .ok () s') : s.Still g s' := by
  have hkeep : ¬ (s.valid ip = true ∧ (s.cached ip).nlink = 0 ∧ s.ref ip = 1) := by
    rintro ⟨hv, hzero, -⟩
    rw [node_of_valid hv] at hlink
    exact hlink hzero
  rw [iput, EStateM.run_bind, EStateM.run_get] at hrun
  dsimp only at hrun
  rw [if_neg hkeep] at hrun
  injection hrun with _ hs
  rw [← hs]
  exact Fs.still_ref h _

theorem ilock_still (h : s.Inv g) (hrun : (ilock ip).run s = .ok () s') :
    s.Still g s' ∧ s'.valid ip = true := by
  obtain ⟨hinv, hdirs, hnode, hbytes, hvalid⟩ := ilock_sameDirs h hrun
  exact ⟨⟨hinv, hdirs.ninodes, hdirs.typed, hnode, hbytes⟩, by rw [hvalid, Function.update_self]⟩

theorem iunlockputInode_eq_ok (h : s.Inv g) (hlink : (s.node ip).nlink ≠ 0)
    (hrun : (iunlockputInode g ip).run s = .ok () s') : s.Still g s' := by
  rw [iunlockputInode] at hrun
  obtain ⟨_, s₁, hunlock, hput⟩ := run_bind_eq_ok.mp hrun
  obtain rfl := iunlock_eq_ok hunlock
  exact iput_eq_ok h hlink hput

/-! ## One directory -/

section

variable {π : Type} {out : Outside π}

/-- What is known of a directory that is locked. -/
structure Locked (g : Geometry) (s : Fs) (dp : ℕ) : Prop where
  inv : s.Inv g
  valid : s.valid dp = true
  type : (s.node dp).type = tDir
  whole : direntSize ∣ (s.bytes g dp).length

theorem Locked.size (h : Locked g s dp) :
    (s.cached dp).size.toNat = (s.bytes g dp).length := by
  rw [length_bytes, node_of_valid h.valid]

theorem Locked.length_lt (h : Locked g s dp) : (s.bytes g dp).length < 2 ^ 32 := by
  rw [← h.size]
  exact (s.cached dp).size.isLt

/-- Before the end of the directory there is a whole entry. -/
theorem Locked.entry_le (h : Locked g s dp) {i : ℕ} (hi : direntSize * i < (s.bytes g dp).length) :
    direntSize * (i + 1) ≤ (s.bytes g dp).length := by
  obtain ⟨n, hn⟩ := h.whole
  rw [hn] at hi ⊢
  exact Nat.mul_le_mul_left _ (Nat.lt_of_mul_lt_mul_left hi)

/-- `readi` of one entry. -/
theorem Locked.readi_run (h : Locked g s dp) {i : ℕ}
    (hi : direntSize * (i + 1) ≤ (s.bytes g dp).length) :
    (readi g out dp (BitVec.ofNat 32 (direntSize * i)) (BitVec.ofNat 32 direntSize)).run s
      = .ok (BitVec.ofNat 32 direntSize, direntAt (s.bytes g dp) i) s := by
  have hlt := h.length_lt
  have hoff : (BitVec.ofNat 32 (direntSize * i)).toNat = direntSize * i := by
    rw [BitVec.toNat_ofNat, Nat.mod_eq_of_lt (by rw [Nat.mul_add] at hi; omega)]
  have hsize : (BitVec.ofNat 32 direntSize).toNat = direntSize := rfl
  rw [Nat.mul_add, Nat.mul_one] at hi
  have hlen : (((s.bytes g dp).drop (direntSize * i)).take direntSize).length = direntSize := by
    rw [List.length_take, List.length_drop]
    omega
  rw [Xv6.readi_run h.valid (h.inv.below dp) (by rw [h.type]; decide) (by rw [hoff]; omega)
    (by rw [hoff, hsize]; omega), hoff, hsize, hlen]
  rfl

/-- The loop of `dirlookup`, when no entry before `i` has the name. -/
theorem Locked.dirlookupLoop_eq_ok (h : Locked g s dp) {r : Option (ℕ × Word)} (fuel i : ℕ)
    (hfuel : (s.bytes g dp).length / direntSize < i + fuel)
    (hi : direntSize * i ≤ (s.bytes g dp).length)
    (hbefore : ∀ k < i, ¬ IsEntry (s.bytes g dp) name k)
    (hrun : (dirlookupLoop g out dp name fuel (direntSize * i)).run s = .ok r s') :
    s.Still g s' ∧ r.map Prod.fst = lookup (s.bytes g dp) name ∧ (r = none → s' = s) := by
  induction fuel generalizing i with
  | zero =>
    have hle : i ≤ (s.bytes g dp).length / direntSize :=
      (Nat.le_div_iff_mul_le (by decide)).mpr (by rwa [Nat.mul_comm])
    omega
  | succ fuel ih =>
    rw [dirlookupLoop, EStateM.run_bind, EStateM.run_get] at hrun
    dsimp only at hrun
    rw [h.size] at hrun
    split at hrun
    case isFalse hend =>
      injection hrun with hr hs
      subst hr hs
      refine ⟨.refl h.inv, (lookup_eq_none.mpr fun k hk => hbefore k ?_).symm, fun _ => rfl⟩
      rw [lt_div_iff] at hk
      have : direntSize * (k + 1) ≤ direntSize * i := hk.trans (by omega)
      exact Nat.le_of_mul_le_mul_left this (by decide)
    case isTrue hlt =>
      have hle := h.entry_le hlt
      rw [run_bind_of_ok (h.readi_run hle), if_neg (not_not.mpr rfl)] at hrun
      split at hrun
      case isTrue hentry =>
        obtain ⟨_, s₁, hget, hpure⟩ := run_bind_eq_ok.mp hrun
        injection hpure with hr hs
        subst hr hs
        refine ⟨(iget_eq_ok h.inv hget).1, ?_, fun hnone => by cases hnone⟩
        exact (lookup_eq_some.mpr ⟨i, lt_div_iff.mpr hle, hentry, rfl, hbefore⟩).symm
      case isFalse hentry =>
        refine ih (i + 1) (by omega) hle (fun k hk => ?_) hrun
        rcases Nat.lt_succ_iff_lt_or_eq.mp hk with hk | rfl
        · exact hbefore k hk
        · exact hentry

/-- **`dirlookup`** looks the name up. -/
theorem Locked.dirlookup_eq_ok (h : Locked g s dp) {r : Option (ℕ × Word)}
    (hrun : (dirlookup g out dp name).run s = .ok r s') :
    s.Still g s' ∧ r.map Prod.fst = lookup (s.bytes g dp) name ∧ (r = none → s' = s) := by
  rw [dirlookup, EStateM.run_bind, EStateM.run_get] at hrun
  dsimp only at hrun
  rw [if_neg (not_not.mpr (by rw [← node_of_valid h.valid]; exact h.type)), h.size] at hrun
  exact h.dirlookupLoop_eq_ok _ 0 (by omega) (by omega) (fun k hk => absurd hk (Nat.not_lt_zero k))
    hrun

/-- The loop of `dirlink` finds room for an entry. -/
theorem Locked.dirlinkLoop_eq_ok (h : Locked g s dp) {off : ℕ} (fuel i : ℕ)
    (hfuel : (s.bytes g dp).length / direntSize < i + fuel)
    (hi : direntSize * i ≤ (s.bytes g dp).length)
    (hrun : (dirlinkLoop g out dp fuel (direntSize * i)).run s = .ok off s') :
    s' = s ∧ ∃ j, off = direntSize * j ∧ Vacant (s.bytes g dp) j := by
  induction fuel generalizing i with
  | zero =>
    have hle : i ≤ (s.bytes g dp).length / direntSize :=
      (Nat.le_div_iff_mul_le (by decide)).mpr (by rwa [Nat.mul_comm])
    omega
  | succ fuel ih =>
    rw [dirlinkLoop, EStateM.run_bind, EStateM.run_get] at hrun
    dsimp only at hrun
    rw [h.size] at hrun
    split at hrun
    case isFalse hend =>
      injection hrun with hr hs
      subst hr hs
      refine ⟨rfl, i, rfl, hi, fun hle => ?_, fun _ => by omega⟩
      rw [Nat.mul_add] at hle
      have : 0 < direntSize := by decide
      omega
    case isTrue hlt =>
      have hle := h.entry_le hlt
      rw [run_bind_of_ok (h.readi_run hle), if_neg (not_not.mpr rfl)] at hrun
      split at hrun
      case isTrue hfree =>
        injection hrun with hr hs
        subst hr hs
        exact ⟨rfl, i, rfl, hi, fun _ => hfree, fun hout => absurd hle hout⟩
      case isFalse => exact ih (i + 1) (by omega) hle hrun

/-- A write that would pass `2 ^ 32` is refused. -/
theorem writei_wraps (hv : s.valid ip = true) (htype : (s.node ip).type ≠ tDev) {off r : Word}
    {src : List Byte} (hsrc : src.length < 2 ^ 32) (hwrap : 2 ^ 32 ≤ off.toNat + src.length)
    (hrun : (writei g out ip src off).run s = .ok r s') : r = -1 := by
  have hlen : (BitVec.ofNat 32 src.length).toNat = src.length := by
    rw [BitVec.toNat_ofNat, Nat.mod_eq_of_lt hsrc]
  have hlt : off + BitVec.ofNat 32 src.length < off := by
    have := off.isLt
    rw [BitVec.lt_def, BitVec.toNat_add, hlen, Nat.mod_eq_sub_mod hwrap, Nat.mod_eq_of_lt (by omega)]
    omega
  rw [writei, EStateM.run_bind, EStateM.run_get] at hrun
  dsimp only at hrun
  rw [← node_of_valid hv, if_neg htype, if_pos (.inr hlt)] at hrun
  injection hrun with hr _
  exact hr.symm

/-- **`dirlink`** puts an entry where there was none. -/
theorem Locked.dirlink_eq_ok (h : Locked g s dp) {inum r : Word}
    (hrun : (dirlink g out dp name inum).run s = .ok r s') (hr : 0 ≤ r.toInt) :
    lookup (s.bytes g dp) name = none ∧ ∃ j, Vacant (s.bytes g dp) j ∧
      Wrote.Done g dp (putEntry (s.bytes g dp) j (dirent name inum)) s s' := by
  rw [dirlink] at hrun
  obtain ⟨found, s₁, hlookup, hrest⟩ := run_bind_eq_ok.mp hrun
  obtain ⟨-, hfound, hsame⟩ := h.dirlookup_eq_ok hlookup
  rcases found with _ | ⟨ip, off⟩
  · obtain rfl := hsame rfl
    dsimp only at hrest
    rw [EStateM.run_bind, EStateM.run_get] at hrest
    dsimp only at hrest
    rw [h.size] at hrest
    obtain ⟨off, s₂, hloop, hrest⟩ := run_bind_eq_ok.mp hrest
    obtain ⟨rfl, j, rfl, hvacant⟩ := h.dirlinkLoop_eq_ok _ 0 (by omega) (by omega) hloop
    obtain ⟨n, s₃, hwrite, hrest⟩ := run_bind_eq_ok.mp hrest
    have hde := length_dirent name inum
    have hoff : (BitVec.ofNat 32 (direntSize * j)).toNat = direntSize * j := by
      have := h.length_lt
      rw [BitVec.toNat_ofNat, Nat.mod_eq_of_lt (lt_of_le_of_lt hvacant.le this)]
    have htype : (s₂.node dp).type ≠ tDev := by
      rw [h.type]
      decide
    split at hrest
    · cases hrest
    case isFalse hall =>
    rw [not_not] at hall
    injection hrest with _ hs
    subst hs
    refine ⟨hfound.symm, j, hvacant, ?_⟩
    by_cases hwrap : 2 ^ 32 ≤ direntSize * j + direntSize
    · have hminus := writei_wraps h.valid htype (by rw [hde]; decide) (by rw [hoff, hde]; exact hwrap)
        hwrite
      rw [hminus] at hall
      exact absurd hall (by decide)
    · have hdone := writei_eq_ok h.inv h.valid htype (by rw [hoff]; exact hvacant.le)
        (by rw [hoff, hde]; omega) hwrite (by rw [hall]; decide)
      rw [hoff] at hdone
      exact hdone
  · -- the name is there already
    obtain ⟨_, s₂, -, hpure⟩ := run_bind_eq_ok.mp hrest
    injection hpure with hr' _
    rw [← hr'] at hr
    exact absurd hr (by decide)

/-! ## Whole paths -/

theorem Fs.Tidy.locked (htidy : s.Tidy g) (h : s.Inv g) (hv : s.valid dp = true)
    (hdir : (s.node dp).type = tDir) : Locked g s dp := ⟨h, hv, hdir, htidy.whole dp hdir⟩

/-- **`namex`** comes to the inode that the bytes of the directories lead to. -/
theorem namexLoop_eq_ok {r : ℕ × List Byte} (fuel : ℕ) (h : s.Inv g) (htidy : s.Tidy g)
    (hrun : (namexLoop g out parent fuel ip path).run s = .ok (some r) s') :
    s.Still g s' ∧ resolve g s parent fuel ip path = some r := by
  induction fuel generalizing s ip path with
  | zero => cases hrun
  | succ fuel ih =>
    rw [namexLoop] at hrun
    rw [resolve]
    rcases hskip : skipelem path with _ | ⟨elem, rest⟩ <;> rw [hskip] at hrun
    · dsimp only at hrun ⊢
      cases parent with
      | true =>
        obtain ⟨_, s₁, -, hpure⟩ := run_bind_eq_ok.mp hrun
        cases hpure
      | false =>
        injection hrun with hr hs
        subst hs
        exact ⟨.refl h, hr⟩
    dsimp only at hrun ⊢
    obtain ⟨_, s₁, hlock, hrest⟩ := run_bind_eq_ok.mp hrun
    obtain ⟨hstill, hvalid⟩ := ilock_still h hlock
    rw [EStateM.run_bind, EStateM.run_get] at hrest
    dsimp only at hrest
    rw [← node_of_valid hvalid, hstill.node] at hrest
    split at hrest
    · obtain ⟨_, s₂, -, hpure⟩ := run_bind_eq_ok.mp hrest
      cases hpure
    case isFalse hdir =>
    rw [if_neg hdir]
    rw [not_not] at hdir
    split at hrest
    case isTrue hlast =>
      obtain ⟨_, s₂, hunlock, hpure⟩ := run_bind_eq_ok.mp hrest
      obtain rfl := iunlock_eq_ok hunlock
      injection hpure with hr hs
      subst hs
      exact ⟨hstill, by rw [if_pos hlast]; exact hr⟩
    case isFalse hlast =>
    rw [if_neg hlast]
    obtain ⟨found, s₂, hlookup, hrest⟩ := run_bind_eq_ok.mp hrest
    have hlocked : Locked g s₁ ip := (hstill.tidy htidy).locked hstill.inv hvalid
      (by rw [hstill.node]; exact hdir)
    obtain ⟨hstill₂, hfound, -⟩ := hlocked.dirlookup_eq_ok hlookup
    rcases found with _ | ⟨next, off⟩
    · obtain ⟨_, s₃, -, hpure⟩ := run_bind_eq_ok.mp hrest
      cases hpure
    obtain ⟨_, s₃, hput, hrest⟩ := run_bind_eq_ok.mp hrest
    have hfar := hstill.trans hstill₂
    have hstill₃ := hfar.trans (iunlockputInode_eq_ok hfar.inv
      (by rw [hfar.node]; exact htidy.linked ip hdir) hput)
    obtain ⟨hend, hresolve⟩ := ih hstill₃.inv (hstill₃.tidy htidy) hrest
    refine ⟨hstill₃.trans hend, ?_⟩
    rw [hstill.bytes] at hfound
    rw [← hfound, ← hresolve]
    exact (hstill₃.sameDirs.samePaths.resolve_eq fuel).symm

theorem namex_eq_ok {cwd : ℕ} {r : ℕ × List Byte} (h : s.Inv g) (htidy : s.Tidy g)
    (hrun : (namex g out cwd path parent).run s = .ok (some r) s') :
    s.Still g s' ∧ resolve g s parent (path.length + 1) (start cwd path) path = some r := by
  obtain ⟨s₁, hstill, hrest⟩ : ∃ s₁, s.Still g s₁ ∧
      (namexLoop g out parent (path.length + 1) (start cwd path) path).run s₁
        = .ok (some r) s' := by
    rw [namex] at hrun
    split at hrun
    case isTrue habs =>
      obtain ⟨_, s₁, hget, hrest⟩ := run_bind_eq_ok.mp hrun
      exact ⟨s₁, (iget_eq_ok h hget).1, by rw [start, if_pos habs]; exact hrest⟩
    case isFalse hrel =>
      obtain ⟨_, s₁, hdup, hrest⟩ := run_bind_eq_ok.mp hrun
      injection hdup with _ hs
      exact ⟨s₁, by rw [← hs]; exact Fs.still_ref h _,
        by rw [start, if_neg hrel]; exact hrest⟩
  obtain ⟨hend, hresolve⟩ := namexLoop_eq_ok _ hstill.inv (hstill.tidy htidy) hrest
  refine ⟨hstill.trans hend, ?_⟩
  rw [← hresolve]
  exact (hstill.sameDirs.samePaths.resolve_eq _).symm

/-! ## A new inode -/

/-- The disk on which `ialloc` has given inode `inum` the type of a regular file. -/
def Fs.withFile (s : Fs) (inum : ℕ) : Fs :=
  { s with dinode := Function.update s.dinode inum (newDinode tFile) }

section

variable {inum : ℕ} (hv : s.valid inum = false) (hfree : (s.dinode inum).type = 0)
include hv

theorem node_withFile_self : (s.withFile inum).node inum = newDinode tFile := by
  simp [Fs.node, Fs.withFile, hv]

omit hv in
theorem node_withFile_of_ne {i : ℕ} (hi : i ≠ inum) : (s.withFile inum).node i = s.node i := by
  simp [Fs.node, Fs.withFile, Function.update_of_ne hi]

omit hv in
theorem ptr_withFile_of_ne {l : ℕ × Loc} (hl : l.1 ≠ inum) :
    (s.withFile inum).ptr g l = s.ptr g l := by
  rw [Fs.ptr, Fs.ptr, node_withFile_of_ne hl]
  rfl

omit hv in
theorem bytes_withFile_of_ne {i : ℕ} (hi : i ≠ inum) :
    (s.withFile inum).bytes g i = s.bytes g i := by
  have hdata : (s.withFile inum).data g i = s.data g i := by
    unfold Fs.data Fs.dataPtr
    funext k
    rw [BlockFile.flat, BlockFile.flat, ptr_withFile_of_ne hi]
    rfl
  rw [Fs.bytes, Fs.bytes, hdata, node_withFile_of_ne hi]

/-- The new inode has no blocks. -/
theorem ptr_withFile_self (loc : Loc) : (s.withFile inum).ptr g (inum, loc) = 0 := by
  rw [Fs.ptr, node_withFile_self hv]
  cases loc with
  | direct i =>
    rw [ptrOf]
    split <;> rfl
  | indirect => rfl
  | entry j => rw [ptrOf, if_pos (.inl rfl)]

theorem Fs.Inv.withFile (h : s.Inv g) : (s.withFile inum).Inv g := by
  have hptr : ∀ l : ℕ × Loc, (s.withFile inum).ptr g l ≠ 0 → l.1 ≠ inum := by
    rintro ⟨i, loc⟩ hl rfl
    exact hl (ptr_withFile_self hv loc)
  refine ⟨⟨⟨fun {l l'} hl hll => ?_, fun {l} hl => ?_⟩, h.sound.boot⟩, fun i bn hbn => ?_,
    fun i hi => ?_⟩
  · have hne := hptr l hl
    have hne' := hptr l' (hll ▸ hl)
    rw [ptr_withFile_of_ne hne] at hl hll
    rw [ptr_withFile_of_ne hne'] at hll
    exact h.sound.owns.inj hl hll
  · have hne := hptr l hl
    rw [ptr_withFile_of_ne hne] at hl ⊢
    exact h.sound.owns.used hl
  · by_cases hi : i = inum
    · rw [hi, node_withFile_self hv] at hbn
      exact absurd hbn (Nat.not_lt_zero _)
    · rw [node_withFile_of_ne hi] at hbn
      rw [Fs.dataPtr, ptr_withFile_of_ne hi]
      exact h.below i bn hbn
  · have hne : i ≠ inum := by
      rintro rfl
      rw [show (s.withFile i).valid i = s.valid i from rfl, hv] at hi
      cases hi
    rw [show (s.withFile inum).dinode i = s.dinode i from Function.update_of_ne hne _ _]
    exact h.coherent i hi

include hfree

theorem node_free : (s.node inum).type = 0 := by
  rw [Fs.node, hv]
  exact hfree

/-- An inode with a type is another one. -/
theorem ne_of_type {i : ℕ} (h : (s.node i).type ≠ 0) : i ≠ inum := by
  rintro rfl
  exact h (node_free hv hfree)

theorem samePaths_withFile : s.SamePaths g (s.withFile inum) := by
  refine ⟨fun i => ?_, fun i hi => bytes_withFile_of_ne (ne_of_type hv hfree (by rw [hi]; decide))⟩
  by_cases hi : i = inum
  · rw [hi, node_withFile_self hv, node_free hv hfree]
    exact ⟨fun h => absurd h (by decide), fun h => absurd h (by decide)⟩
  · rw [node_withFile_of_ne hi]

theorem Fs.Tidy.withFile (h : s.Tidy g) : (s.withFile inum).Tidy g := by
  have hpaths := samePaths_withFile (g := g) hv hfree
  have hnode : ∀ i, (s.node i).type ≠ 0 → (s.withFile inum).node i = s.node i := fun i hi =>
    node_withFile_of_ne (ne_of_type hv hfree hi)
  have hdir : ∀ i, (s.node i).type = tDir → (s.withFile inum).node i = s.node i := fun i hi =>
    hnode i (by rw [hi]; decide)
  refine ⟨h.ninodes, fun i hi => ?_, fun dp hdp => ?_, fun dp hdp => ?_, fun {dp name ip} hdp hip => ?_⟩
  · rw [hnode i (h.typed i hi)]
    exact h.typed i hi
  · rw [hpaths.type] at hdp
    rw [hdir dp hdp]
    exact h.linked dp hdp
  · rw [hpaths.type] at hdp
    rw [hpaths.bytes dp hdp]
    exact h.whole dp hdp
  · rw [hpaths.type] at hdp
    rw [hpaths.bytes dp hdp] at hip
    have hentry := h.entries hdp hip
    rw [hnode ip hentry.1]
    exact hentry

/-- No path names a free inode, so a new file changes nothing that is observed. -/
theorem same_withFile (h : s.Tidy g) : (pathNaming g).view.Same s (s.withFile inum) := by
  have hpaths := samePaths_withFile (g := g) hv hfree
  refine ⟨⟨hpaths.target_eq, fun a => ?_, fun ha => hpaths.endsIn ha⟩, fun {ip n} hfresh => ?_⟩
  · change (target g a (s.withFile inum)).bind _ = (target g a s).bind _
    rw [hpaths.target_eq]
    rcases htarget : target g a s with _ | ip
    · rfl
    · have hne := ne_of_type hv hfree (h.target_type htarget).1
      change (s.withFile inum).fileBytes g ip = s.fileBytes g ip
      rw [Fs.fileBytes, Fs.fileBytes, node_withFile_of_ne hne, bytes_withFile_of_ne hne]
  · have hne := ne_of_type hv hfree (i := ip) (by rw [hfresh.1]; decide)
    change ((s.withFile inum).node ip).type = tFile ∧ _
    rw [node_withFile_of_ne hne]
    exact hfresh

end

/-- **`ialloc`** takes a free inode, which is not in the cache. -/
theorem ialloc_eq_ok (h : s.Inv g) (htidy : s.Tidy g)
    (hrun : (ialloc tFile).run s = .ok (some ip) s') :
    s.valid ip = false ∧ (s.dinode ip).type = 0 ∧ 0 < ip ∧ ip < 2 ^ 16 ∧
      (s.withFile ip).Still g s' ∧ ∀ i, i ≠ ip → s'.valid i = s.valid i := by
  rw [ialloc, EStateM.run_bind, EStateM.run_get] at hrun
  dsimp only at hrun
  split at hrun
  · cases hrun
  case h_2 inum hfind =>
  have hlt := List.mem_range.mp (List.mem_of_find?_eq_some hfind)
  have hfound := List.find?_some hfind
  obtain ⟨hpos, hfree⟩ := of_decide_eq_true hfound
  have hv : s.valid inum = false := by
    by_contra hv
    rw [Bool.not_eq_false] at hv
    refine htidy.typed inum hv ?_
    rw [node_of_valid hv, h.coherent inum hv]
    exact hfree
  obtain ⟨_, s₁, hset, hrest⟩ := run_bind_eq_ok.mp hrun
  injection hset with _ hs₁
  obtain ⟨_, s₂, hget, hpure⟩ := run_bind_eq_ok.mp hrest
  injection hpure with hip hs
  obtain rfl := Option.some.inj hip
  subst hs
  rw [← hs₁] at hget
  obtain ⟨hstill, hvalid⟩ := iget_eq_ok (h.withFile hv) hget
  exact ⟨hv, hfree, hpos, lt_of_lt_of_le hlt htidy.ninodes, hstill, hvalid⟩

/-! ## A new entry -/

section

variable {j : ℕ} {inum : Word} (hvacant : Vacant (s.bytes g dp) j)
  (hdone : Wrote.Done g dp (putEntry (s.bytes g dp) j (dirent name inum)) s s')
  (hdir : (s.node dp).type = tDir)
include hvacant hdone hdir

/-- The directories are still in order with an entry of a regular file. -/
theorem Fs.Tidy.dirlink (h : s.Tidy g)
    (htype : (s.node (inum.toNat % 2 ^ 16)).type = tFile)
    (hlink : (s.node (inum.toNat % 2 ^ 16)).nlink ≠ 0) : s'.Tidy g := by
  refine ⟨by rw [hdone.ninodes]; exact h.ninodes, fun i hi => ?_, fun d hd => ?_, fun d hd => ?_,
    fun {d other ip} hd hip => ?_⟩
  · rw [hdone.valid] at hi
    rw [hdone.type]
    exact h.typed i hi
  · rw [hdone.type] at hd
    rw [hdone.nlink]
    exact h.linked d hd
  · rw [hdone.type] at hd
    by_cases hdp : d = dp
    · rw [hdp, hdone.bytes, length_putEntry (length_dirent name inum) hvacant.le]
      rcases max_choice (s.bytes g dp).length (direntSize * (j + 1)) with hmax | hmax <;> rw [hmax]
      · exact h.whole dp hdir
      · exact dvd_mul_right _ _
    · rw [hdone.others d hdp]
      exact h.whole d hd
  · rw [hdone.type] at hd ⊢
    rw [hdone.nlink]
    by_cases hdp : d = dp
    · rw [hdp, hdone.bytes] at hip
      rcases hvacant.lookup_cases hip with rfl | hold
      · exact ⟨by rw [htype]; decide, fun _ => hlink⟩
      · exact h.entries hdir hold
    · rw [hdone.others d hdp] at hip
      exact h.entries hd hip

omit hdir in
/-- A path to the entry still leads there. -/
theorem EndsIn.dirlink (hnone : lookup (s.bytes g dp) name = none) {a : Place ℕ}
    (ha : EndsIn g a s dp name) : EndsIn g a s' dp name := by
  refine resolve_mono (fun i hi => by rw [hdone.type]; exact hi) (fun i other x _ hx => ?_) _ ha
  by_cases hi : i = dp
  · rw [hi] at hx ⊢
    rw [hdone.bytes]
    exact hvacant.lookup_of_some ha.dir_name.2 hnone hx
  · rwa [hdone.others i hi]

end

/-- **The names of `fs.c`** keep the laws of names, over a log that does not show. -/
def pathNames (g : Geometry) (out : Outside π)
    (hbegin : ∀ s s', out.beginOp.run s = .ok () s' → s' = s)
    (hend : ∀ s s', out.endOp.run s = .ok () s' → s' = s) : NameLaws g (withNames g out) where
  toNaming := pathNaming g
  beginOp s _ s' hinv hrun := by
    obtain rfl := hbegin s s' hrun
    exact ⟨hinv, .refl _ _⟩
  endOp s _ s' hinv hrun := by
    obtain rfl := hend s s' hrun
    exact ⟨hinv, .refl _ _⟩
  iput hinv hlink hrun := (iput_eq_ok hinv.1 hlink hrun).quiet hinv.2
  namei {cwd path s s' ip t} hinv htarget hrun := by
    obtain ⟨r, hnamex, hr⟩ := run_bind_pure_eq_ok.mp hrun
    obtain ⟨⟨i, x⟩, rfl, rfl⟩ := Option.map_eq_some_iff.mp hr
    obtain ⟨hstill, hresolve⟩ := namex_eq_ok hinv.1 hinv.2 hnamex
    refine ⟨hstill.quiet hinv.2, ?_⟩
    change target g (cwd, path) s = some t at htarget
    simp only [target, hresolve] at htarget
    split at htarget
    · exact Option.some.inj htarget
    · cases htarget
  nameiparent {cwd path s s' dp name} hinv hrun := by
    obtain ⟨hstill, hresolve⟩ := namex_eq_ok hinv.1 hinv.2 hrun
    exact ⟨hstill.quiet hinv.2, hstill.sameDirs.samePaths.endsIn hresolve⟩
  dirlookup_some {a s s' dp name ip off} hinv hvalid hparent hrun := by
    have hlocked := hinv.2.locked hinv.1 hvalid hparent.dir_name.1
    obtain ⟨hstill, hfound, -⟩ := hlocked.dirlookup_eq_ok hrun
    refine ⟨hstill.quiet hinv.2, ?_⟩
    change target g a s' = some ip
    rw [hstill.sameDirs.samePaths.target_eq, hparent.target_eq, ← hfound]
    rfl
  dirlookup_none {a s s' dp name} hinv hvalid hparent hrun := by
    have hlocked := hinv.2.locked hinv.1 hvalid hparent.dir_name.1
    obtain ⟨hstill, hfound, hsame⟩ := hlocked.dirlookup_eq_ok hrun
    obtain rfl := hsame rfl
    refine ⟨hstill.quiet hinv.2, ?_, hvalid⟩
    change target g a s' = none
    rw [hparent.target_eq, ← hfound]
    rfl
  ialloc {a s s' dev dp name ip} hinv hvalid hparent hrun := by
    obtain ⟨hv, hfree, hpos, hlt, hstill, hkept⟩ := ialloc_eq_ok hinv.1 hinv.2 hrun
    have hsame := same_withFile hv hfree hinv.2
    have hquiet := hstill.quiet (hinv.2.withFile hv hfree)
    have hne : dp ≠ ip := by
      rintro rfl
      rw [hvalid] at hv
      cases hv
    refine ⟨⟨hquiet.1, ?_⟩, ?_, by rw [hkept dp hne]; exact hvalid⟩
    · exact ⟨⟨fun b => (hquiet.2.target b).trans (hsame.target b),
        fun b => (hquiet.2.contents b).trans (hsame.contents b),
        fun h => hquiet.2.parent (hsame.parent h)⟩, fun h => hquiet.2.fresh (hsame.fresh h)⟩
    · change (s'.node ip).type = tFile ∧ _
      rw [hstill.node, node_withFile_self hv]
      exact ⟨rfl, rfl, rfl, hpos, hlt⟩
  dirlink {a s s' dp name ip r} hinv hvalid hparent hfresh hrun hr := by
    obtain ⟨htype, hsize, hlink, hpos, hlt⟩ := hfresh
    have hdir := hparent.dir_name.1
    have hlocked := hinv.2.locked hinv.1 hvalid hdir
    obtain ⟨hnone, j, hvacant, hdone⟩ := hlocked.dirlink_eq_ok hrun hr
    have hnum : (BitVec.ofNat 32 ip).toNat % 2 ^ 16 = ip := by
      rw [BitVec.toNat_ofNat, Nat.mod_eq_of_lt (show ip < 2 ^ 32 by omega), Nat.mod_eq_of_lt hlt]
    have hne : ip ≠ dp := by
      rintro rfl
      rw [htype] at hdir
      exact absurd hdir (by decide)
    have hends := EndsIn.dirlink hvacant hdone hnone hparent
    refine ⟨⟨hdone.inv, hinv.2.dirlink hvacant hdone hdir (by rw [hnum]; exact htype)
      (by rw [hnum, hlink]; decide)⟩, hends, ?_, ?_⟩
    · change target g a s' = some ip
      rw [hends.target_eq, hdone.bytes, hvacant.lookup_self hparent.dir_name.2
        (by rw [hnum]; omega) hnone, hnum]
    · change (s'.node ip).type = tFile ∧ (s'.node ip).size = 0 ∧ (s'.node ip).nlink = 1 ∧ _
      refine ⟨by rw [hdone.type]; exact htype, BitVec.eq_of_toNat_eq ?_,
        by rw [hdone.nlink]; exact hlink, hpos, hlt⟩
      rw [← length_bytes g, hdone.others ip hne, length_bytes, hsize]

end

/-! ## A disk with two directories -/

namespace TwoDirs

/-- The names of `fs.c`, over a log that does not show and without devices or pipes. -/
def outside : Outside Unit := withNames geometry3 OneInode.outside

theorem quiet_log (s s' : Fs) (h : (pure () : FsM Unit).run s = .ok () s') : s' = s := by
  injection h with _ hs
  exact hs.symm

def names : NameLaws geometry3 outside :=
  pathNames geometry3 OneInode.outside quiet_log quiet_log

theorem store_target (a : Place ℕ) (s : Fs) :
    names.store.target a s = target geometry3 a s := rfl

theorem store_contents (a : Place ℕ) (s : Fs) :
    names.store.contents a s = (target geometry3 a s).bind (s.fileBytes geometry3) := rfl

/-- The root directory is inode `1`, and its entry `h` is inode `2`, another directory. -/
def entries : ℕ → List Byte
  | 1 => dirent [46] 1 ++ dirent [46, 46] 1 ++ dirent [104] 2
  | 2 => dirent [46] 2 ++ dirent [46, 46] 1
  | _ => []

/-- The other inodes are free. -/
def inode (ip : ℕ) : Dinode where
  type := if ip = 1 ∨ ip = 2 then tDir else 0
  major := 0
  minor := 0
  nlink := if ip = 1 ∨ ip = 2 then 1 else 0
  size := BitVec.ofNat 32 (entries ip).length
  addrs := fun i => if i = 0 ∧ (ip = 1 ∨ ip = 2) then BitVec.ofNat 32 ip else 0

/-- Each directory is in the block of its number, and both are in the inode cache. -/
def disk : Fs where
  sbSize := 8
  ninodes := 5
  used b := decide (b ≤ 2)
  block b := overlay (fun _ => 0) 0 (entries b)
  dinode := inode
  cached := inode
  valid ip := decide (ip = 1 ∨ ip = 2)
  ref ip := if ip = 1 ∨ ip = 2 then 1 else 0

theorem node_disk : disk.node = inode := by
  funext ip
  rw [Fs.node]
  split <;> rfl

theorem ptr_disk (l : ℕ × Loc) :
    disk.ptr geometry3 l = if l = (1, .direct 0) then 1 else if l = (2, .direct 0) then 2 else 0 := by
  obtain ⟨ip, loc⟩ := l
  rw [Fs.ptr, node_disk]
  cases loc with
  | direct i =>
    by_cases hi : i = 0 ∧ (ip = 1 ∨ ip = 2)
    · obtain ⟨rfl, rfl | rfl⟩ := hi <;> rfl
    · have h1 : ¬ (ip, Loc.direct i) = (1, .direct 0) := fun h => hi (by simp_all)
      have h2 : ¬ (ip, Loc.direct i) = (2, .direct 0) := fun h => hi (by simp_all)
      simp [ptrOf, inode, hi, h1, h2]
  | indirect => simp [ptrOf, inode, geometry3]
  | entry j => simp [ptrOf, inode, geometry3]

theorem dir_cases {ip : ℕ} (h : (disk.node ip).type = tDir) : ip = 1 ∨ ip = 2 := by
  by_contra hne
  rw [node_disk, inode] at h
  dsimp only at h
  rw [if_neg hne] at h
  exact absurd h (by decide)

theorem bytes_disk {ip : ℕ} (h : ip = 1 ∨ ip = 2) : disk.bytes geometry3 ip = entries ip := by
  rcases h with rfl | rfl <;> decide +kernel

/-- Both directories have entries of directories only. -/
theorem lookup_disk {dp ip : ℕ} {name : List Byte} (hdp : dp = 1 ∨ dp = 2)
    (h : lookup (entries dp) name = some ip) : ip = 1 ∨ ip = 2 := by
  obtain ⟨i, hi, -, hip, -⟩ := lookup_eq_some.mp h
  have hall : ∀ i < (entries dp).length / direntSize, direntInum (direntAt (entries dp) i) = 1 ∨
      direntInum (direntAt (entries dp) i) = 2 := by
    rcases hdp with rfl | rfl <;> decide +kernel
  rw [← hip]
  exact hall i hi

theorem fs_inv_disk : disk.Inv geometry3 where
  sound := by
    refine ⟨⟨fun {l l'} hl heq => ?_, fun {l} hl => ?_⟩, rfl⟩
    · rw [ptr_disk] at hl heq
      rw [ptr_disk] at heq
      split_ifs at hl heq <;> simp_all
    · rw [ptr_disk] at hl ⊢
      split_ifs at hl <;> simp_all [disk]
  below ip bn hbn := by
    rw [node_disk] at hbn
    have hip : ip = 1 ∨ ip = 2 := by
      by_contra hne
      have hempty : (entries ip).length = 0 := by
        rw [entries.eq_def]
        split
        · simp at hne
        · simp at hne
        · rfl
      simp [inode, hempty] at hbn
    have hzero : bn = 0 := by
      have hsize : (inode ip).size.toNat ≤ 512 := by rcases hip with rfl | rfl <;> decide +kernel
      change bn * 512 < _ at hbn
      omega
    subst hzero
    rcases hip with rfl | rfl <;> decide +kernel
  coherent ip _ := rfl

theorem inv_disk : names.toNaming.Inv disk := by
  refine ⟨fs_inv_disk, by decide, fun ip hip => ?_, fun dp hdp => ?_, fun dp hdp => ?_,
    fun {dp name ip} hdp hip => ?_⟩
  · rw [node_disk]
    rcases of_decide_eq_true hip with rfl | rfl <;> decide
  · rw [node_disk]
    rcases dir_cases hdp with rfl | rfl <;> decide
  · rw [bytes_disk (dir_cases hdp)]
    rcases dir_cases hdp with rfl | rfl <;> decide +kernel
  · rw [bytes_disk (dir_cases hdp)] at hip
    rw [node_disk]
    rcases lookup_disk (dir_cases hdp) hip with rfl | rfl <;> decide

end TwoDirs

end Xv6
