/-
# Circular doubly linked lists

Nodes with two links around a head, as kernels keep them.  A ring of links represents a
list without repetitions: following `next` from the head visits its elements in order and
comes back, and `prev` goes the other way.  Linking a node in behind the head and taking a
node out are what they are on the list, and the two loops that look for a node, forward and
backward, find what `List.find?` finds.  Nothing here mentions the program that uses it.
-/
import Mathlib.Data.List.Nodup
import Mathlib.Logic.Function.Basic

namespace CircularList

variable {α : Type}

/-- The links of the nodes, and of the head, which is `none`. -/
structure Links (α : Type) where
  next : Option α → Option α
  prev : Option α → Option α

namespace Links

/-- From `x` the nodes of a list follow each other, and then `y`. -/
def Path (r : Links α) : Option α → List α → Option α → Prop
  | x, [], y => r.next x = y ∧ r.prev y = x
  | x, a :: l, y => (r.next x = some a ∧ r.prev (some a) = x) ∧ r.Path (some a) l y

/-- The ring represents the list. -/
structure Lists (r : Links α) (l : List α) : Prop where
  path : r.Path none l none
  nodup : l.Nodup

variable {r r' : Links α} {x y : Option α} {l l₁ l₂ : List α} {b : α}

theorem path_append : r.Path x (l₁ ++ b :: l₂) y ↔ r.Path x l₁ (some b) ∧ r.Path (some b) l₂ y := by
  induction l₁ generalizing x with
  | nil => exact Iff.rfl
  | cons a l₁ ih =>
    rw [List.cons_append, Path, Path, ih]
    exact and_assoc.symm

/-- A path is kept when the links along it are. -/
theorem Path.congr (h : r.Path x l y) (hx : r'.next x = r.next x)
    (hnext : ∀ a ∈ l, r'.next (some a) = r.next (some a))
    (hprev : ∀ a ∈ l, r'.prev (some a) = r.prev (some a)) (hy : r'.prev y = r.prev y) :
    r'.Path x l y := by
  induction l generalizing x with
  | nil => exact ⟨hx.trans h.1, hy.trans h.2⟩
  | cons a l ih =>
    obtain ⟨⟨hxa, hax⟩, hrest⟩ := h
    have ha := List.mem_cons_self (a := a) (l := l)
    refine ⟨⟨hx.trans hxa, (hprev a ha).trans hax⟩, ih hrest (hnext a ha) ?_ ?_⟩
    · exact fun c hc => hnext c (List.mem_cons_of_mem _ hc)
    · exact fun c hc => hprev c (List.mem_cons_of_mem _ hc)

/-- What stands before the end of a path. -/
theorem Path.prev_end (h : r.Path x l y) : r.prev y = x ∨ ∃ a ∈ l, r.prev y = some a := by
  induction l generalizing x with
  | nil => exact .inl h.2
  | cons a l ih =>
    rcases ih h.2 with hlast | ⟨c, hc, hlast⟩
    · exact .inr ⟨a, List.mem_cons_self, hlast⟩
    · exact .inr ⟨c, List.mem_cons_of_mem _ hc, hlast⟩

/-- What follows the start of a path. -/
theorem Path.next_start (h : r.Path x l y) : r.next x = y ∨ ∃ a ∈ l, r.next x = some a := by
  cases l with
  | nil => exact .inl h.1
  | cons a l => exact .inr ⟨a, List.mem_cons_self, h.1.1⟩

/-! ## Linking in and taking out -/

section

variable [DecidableEq α]

/-- Link a node in behind the head. -/
def insert (r : Links α) (b : α) : Links α where
  next := Function.update (Function.update r.next (some b) (r.next none)) none (some b)
  prev := Function.update (Function.update r.prev (some b) none) (r.next none) (some b)

/-- Take a node out: first the link of the node behind it, then that of the one before. -/
def unlink (r : Links α) (b : α) : Links α where
  next := Function.update r.next
    (Function.update r.prev (r.next (some b)) (r.prev (some b)) (some b)) (r.next (some b))
  prev := Function.update r.prev (r.next (some b)) (r.prev (some b))

/-- **Linking a node in** puts it at the front. -/
theorem Lists.insert (h : r.Lists l) (hb : b ∉ l) : (r.insert b).Lists (b :: l) := by
  refine ⟨?_, List.nodup_cons.mpr ⟨hb, h.nodup⟩⟩
  have hnone : (none : Option α) ≠ some b := fun h => by cases h
  have hhead : (r.insert b).next none = some b := by
    unfold Links.insert
    dsimp only
    rw [Function.update_self]
  have hnext : (r.insert b).next (some b) = r.next none := by
    unfold Links.insert
    dsimp only
    rw [Function.update_of_ne (Ne.symm hnone), Function.update_self]
  cases l with
  | nil =>
    have hfirst : r.next none = none := h.path.1
    refine ⟨⟨hhead, ?_⟩, hnext.trans hfirst, ?_⟩
    · unfold Links.insert
      dsimp only
      rw [hfirst, Function.update_of_ne (Ne.symm hnone), Function.update_self]
    · unfold Links.insert
      dsimp only
      rw [hfirst, Function.update_self]
  | cons a l =>
    obtain ⟨⟨hfirst, -⟩, hrest⟩ := h.path
    have hba : some b ≠ some a := by
      intro heq
      exact hb (by rw [Option.some.inj heq]; exact List.mem_cons_self)
    have hal : a ∉ l := (List.nodup_cons.mp h.nodup).1
    -- the other nodes keep their links
    have hkeepNext : ∀ c ∈ a :: l, (r.insert b).next (some c) = r.next (some c) := by
      intro c hc
      unfold Links.insert
      dsimp only
      rw [Function.update_of_ne (by simp), Function.update_of_ne]
      rintro heq
      exact hb (Option.some.inj heq ▸ hc)
    have hkeepPrev : ∀ c : Option α, c ≠ some a → c ≠ some b →
        (r.insert b).prev c = r.prev c := by
      intro c hca hcb
      unfold Links.insert
      dsimp only
      rw [hfirst, Function.update_of_ne hca, Function.update_of_ne hcb]
    refine ⟨⟨hhead, ?_⟩, ⟨hnext.trans hfirst, ?_⟩, hrest.congr (hkeepNext a List.mem_cons_self)
      (fun c hc => hkeepNext c (List.mem_cons_of_mem _ hc)) (fun c hc => ?_) ?_⟩
    · unfold Links.insert
      dsimp only
      rw [hfirst, Function.update_of_ne hba, Function.update_self]
    · unfold Links.insert
      dsimp only
      rw [hfirst, Function.update_self]
    · apply hkeepPrev
      · rintro heq
        exact hal (Option.some.inj heq ▸ hc)
      · rintro heq
        exact hb (Option.some.inj heq ▸ List.mem_cons_of_mem _ hc)
    · exact hkeepPrev none (by simp) (by simp)

/-- Taking a node out of a path that ends at the head. -/
theorem Path.unlink (h₁ : r.Path x l₁ (some b)) (h₂ : r.Path (some b) l₂ none)
    (hnodup : (l₁ ++ b :: l₂).Nodup) (hx : ∀ a ∈ l₁ ++ b :: l₂, x ≠ some a) :
    (r.unlink b).Path x (l₁ ++ l₂) none := by
  have hnext_ne : r.next (some b) ≠ some b := by
    intro heq
    rcases h₂.next_start with hend | ⟨a, ha, hstart⟩
    · rw [hend] at heq
      cases heq
    · rw [hstart, Option.some.injEq] at heq
      rw [heq] at ha
      exact (List.nodup_cons.mp (List.nodup_append.mp hnodup).2.1).1 ha
  have hupdNext : (r.unlink b).next = Function.update r.next (r.prev (some b)) (r.next (some b)) := by
    unfold Links.unlink
    dsimp only
    rw [Function.update_of_ne (Ne.symm hnext_ne)]
  have hupdPrev : (r.unlink b).prev = Function.update r.prev (r.next (some b)) (r.prev (some b)) := rfl
  induction l₁ generalizing x with
  | nil =>
    obtain ⟨hxb, hbx⟩ := h₁
    rw [hbx] at hupdNext hupdPrev
    cases l₂ with
    | nil =>
      obtain ⟨hbn, hnb⟩ := h₂
      refine ⟨?_, ?_⟩
      · rw [hupdNext, Function.update_self, hbn]
      · rw [hupdPrev, hbn, Function.update_self]
    | cons c l₂ =>
      obtain ⟨⟨hbc, -⟩, hrest⟩ := h₂
      have hcl : c ∉ l₂ := (List.nodup_cons.mp (List.nodup_cons.mp hnodup).2).1
      rw [hbc] at hupdPrev
      refine ⟨⟨?_, ?_⟩, hrest.congr ?_ (fun d hd => ?_) (fun d hd => ?_) ?_⟩
      · rw [hupdNext, Function.update_self, hbc]
      · rw [hupdPrev, Function.update_self]
      · rw [hupdNext, Function.update_of_ne (hx c (by simp)).symm]
      · rw [hupdNext, Function.update_of_ne (hx d (by simp [hd])).symm]
      · rw [hupdPrev, Function.update_of_ne]
        rintro heq
        exact hcl (Option.some.inj heq ▸ hd)
      · rw [hupdPrev, Function.update_of_ne (by simp)]
  | cons a l₁ ih =>
    obtain ⟨⟨hxa, hax⟩, hrest⟩ := h₁
    rw [List.cons_append, List.nodup_cons] at hnodup
    have ha : ∀ c ∈ l₁ ++ b :: l₂, some a ≠ some c := by
      rintro c hc heq
      exact hnodup.1 (Option.some.inj heq ▸ hc)
    refine ⟨⟨?_, ?_⟩, ih hrest hnodup.2 ha⟩
    · -- what stands before `b` comes behind `x`
      rw [hupdNext, Function.update_of_ne, hxa]
      rcases hrest.prev_end with hlast | ⟨c, hc, hlast⟩
      · rw [hlast]
        exact hx a (by simp)
      · rw [hlast]
        exact hx c (by simp [hc])
    · rw [hupdPrev, Function.update_of_ne, hax]
      rcases h₂.next_start with hend | ⟨c, hc, hstart⟩
      · rw [hend]
        simp
      · rw [hstart]
        exact ha c (by simp [hc])

/-- **Taking a node out** removes it from the list. -/
theorem Lists.unlink (h : r.Lists (l₁ ++ b :: l₂)) : (r.unlink b).Lists (l₁ ++ l₂) := by
  obtain ⟨h₁, h₂⟩ := path_append.mp h.path
  refine ⟨h₁.unlink h₂ h.nodup fun a _ => by simp, ?_⟩
  exact h.nodup.sublist (List.Sublist.append_left (List.sublist_cons_self b l₂) l₁)

/-- Moving a node to the front. -/
theorem Lists.toFront (h : r.Lists l) (hb : b ∈ l) :
    ((r.unlink b).insert b).Lists (b :: l.erase b) := by
  obtain ⟨l₁, l₂, hb₁, rfl, herase⟩ := List.exists_erase_eq hb
  rw [herase]
  have hnot : b ∉ l₁ ++ l₂ := by
    have hmid := (List.nodup_middle.mp h.nodup)
    exact (List.nodup_cons.mp hmid).1
  exact h.unlink.insert hnot

end

/-! ## Looking for a node -/

/-- The loop that follows links until a node has the property or the head is reached, within
`fuel` rounds. -/
def scan (link : Option α → Option α) (p : α → Bool) : ℕ → Option α → Option (Option α)
  | 0, _ => none
  | _ + 1, none => some none
  | fuel + 1, some a => if p a then some (some a) else scan link p fuel (link (some a))

theorem Path.scan_next (h : r.Path x l none) (p : α → Bool) {fuel : ℕ} (hfuel : l.length < fuel) :
    scan r.next p fuel (r.next x) = some (l.find? p) := by
  induction l generalizing x fuel with
  | nil =>
    obtain ⟨n, rfl⟩ := Nat.exists_eq_add_of_lt hfuel
    rw [h.1]
    rfl
  | cons a l ih =>
    rw [List.length_cons] at hfuel
    obtain ⟨n, rfl⟩ : ∃ n, fuel = n + 1 := ⟨fuel - 1, by omega⟩
    rw [h.1.1, scan, List.find?_cons, ih h.2 (by omega)]
    cases p a <;> rfl

/-- The links the other way round. -/
def flip (r : Links α) : Links α := ⟨r.prev, r.next⟩

theorem Path.flip (h : r.Path x l y) : r.flip.Path y l.reverse x := by
  induction l generalizing x with
  | nil => exact ⟨h.2, h.1⟩
  | cons a l ih =>
    rw [List.reverse_cons]
    exact path_append.mpr ⟨ih h.2, h.1.2, h.1.1⟩

/-- **Looking from the front** finds the first node with the property. -/
theorem Lists.scan_next (h : r.Lists l) (p : α → Bool) {fuel : ℕ} (hfuel : l.length < fuel) :
    scan r.next p fuel (r.next none) = some (l.find? p) := h.path.scan_next p hfuel

/-- **Looking from the back** finds the last one. -/
theorem Lists.scan_prev (h : r.Lists l) (p : α → Bool) {fuel : ℕ} (hfuel : l.length < fuel) :
    scan r.prev p fuel (r.prev none) = some (l.reverse.find? p) :=
  h.path.flip.scan_next p (by rw [List.length_reverse]; exact hfuel)

end Links

end CircularList
