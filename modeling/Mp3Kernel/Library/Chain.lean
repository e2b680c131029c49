import Mathlib.Logic.Function.Basic
import Mathlib.Data.List.Nodup
import Mathlib.Data.Fintype.Card
import Mathlib.Tactic

/-!
# Linked chains

A singly linked list in memory has links in two kinds of places: the head, which
is `none` here, and the `next` field of a node `a`, which is `some a`. What is
stored there is a node or nothing, so a list is a function `link` from places to
optional nodes. `Linked link p nodes` says that following the links from the place
`p` on visits `nodes` and then ends. A node can only be visited once, so to link a
node that is in the chain already is to close a cycle.
-/

namespace Mp3Kernel

namespace Library

variable {α : Type} {link link' : Option α → Option α} {p p' : Option α} {nodes : List α} {a : α}

def Linked (link : Option α → Option α) : Option α → List α → Prop
  | p, [] => link p = none
  | p, a :: rest => link p = some a ∧ Linked link (some a) rest

/-- The nodes behind `p`, at most `rounds` of them. -/
def walk (link : Option α → Option α) : Nat → Option α → List α
  | 0, _ => []
  | rounds + 1, p =>
    match link p with
    | none => []
    | some a => a :: walk link rounds (some a)

/-! ## The place before a node -/

theorem getLast?_cons_or (b : α) (before : List α) (p : Option α) :
    (b :: before).getLast?.or p = before.getLast?.or (some b) := by
  cases before with
  | nil => rfl
  | cons c before => simp [List.getLast?_cons]

theorem last_place_mem (before : List α) (p : Option α) :
    before.getLast?.or p ∈ p :: before.map some := by
  cases last : before.getLast? with
  | none => exact List.mem_cons_self
  | some b => exact List.mem_cons_of_mem _ (List.mem_map_of_mem (List.mem_of_getLast? last))

namespace Linked

theorem walk_eq {rounds : Nat} (linked : Linked link p nodes) (enough : nodes.length ≤ rounds) :
    walk link rounds p = nodes := by
  induction nodes generalizing p rounds with
  | nil =>
    have last : link p = none := linked
    cases rounds with
    | zero => rfl
    | succ rounds => rw [walk, last]
  | cons a rest ih =>
    obtain ⟨first, linked⟩ := linked
    cases rounds with
    | zero => exact absurd enough (by simp)
    | succ rounds =>
      rw [walk, first]
      exact congrArg (a :: ·) (ih linked (Nat.le_of_succ_le_succ enough))

theorem unique {nodes' : List α} (linked : Linked link p nodes) (linked' : Linked link p nodes') :
    nodes = nodes' := by
  have first := linked.walk_eq (Nat.le_max_left nodes.length nodes'.length)
  have second := linked'.walk_eq (Nat.le_max_right nodes.length nodes'.length)
  exact first.symm.trans second

theorem of_append {before after : List α} (linked : Linked link p (before ++ a :: after)) :
    Linked link (some a) after := by
  induction before generalizing p with
  | nil => exact linked.2
  | cons b before ih => exact ih linked.2

/-- No place comes up twice. -/
theorem nodup_places (linked : Linked link p nodes) : (p :: nodes.map some).Nodup := by
  induction nodes generalizing p with
  | nil => exact List.nodup_singleton p
  | cons b rest ih =>
    refine List.nodup_cons.mpr ⟨fun again => ?_, ih linked.2⟩
    -- The chain behind `p` would be longer than itself.
    obtain ⟨a, member, rfl⟩ := List.mem_map.mp again
    obtain ⟨before, after, split⟩ := List.append_of_mem member
    have same := linked.unique (of_append (split ▸ linked))
    have length := congrArg List.length split
    have behind : (a :: after).length = after.length + 1 := rfl
    rw [List.length_append, behind, ← same] at length
    omega

theorem nodup (linked : Linked link p nodes) : nodes.Nodup :=
  List.Nodup.of_map some (List.nodup_cons.mp linked.nodup_places).2

theorem length_le [Fintype α] (linked : Linked link p nodes) : nodes.length ≤ Fintype.card α :=
  linked.nodup.length_le_card

/-! ## Changing links -/

/-- Only the links that are followed matter, and the first may be stored elsewhere. -/
theorem move (linked : Linked link p nodes) (first : link' p' = link p)
    (same : ∀ b ∈ nodes, link' (some b) = link (some b)) : Linked link' p' nodes := by
  induction nodes generalizing p p' with
  | nil => exact first.trans linked
  | cons b rest ih =>
    rw [List.forall_mem_cons] at same
    exact ⟨first.trans linked.1, ih linked.2 same.1 same.2⟩

/-- A node is taken out when the place before it gets its link. -/
theorem splice {before after : List α} (linked : Linked link p (before ++ a :: after))
    (skip : link' (before.getLast?.or p) = link (some a))
    (same : ∀ q, q ≠ before.getLast?.or p → q ≠ some a → link' q = link q) :
    Linked link' p (before ++ after) := by
  have distinct := linked.nodup_places
  induction before generalizing p with
  | nil =>
    apply linked.2.move skip
    intro b member
    simp only [List.nil_append, List.map_cons, List.nodup_cons, List.mem_cons, not_or] at distinct
    apply same
    · rintro rfl
      exact distinct.1.2 (List.mem_map_of_mem member)
    · intro equal
      exact distinct.2.1 (equal ▸ List.mem_map_of_mem member)
  | cons b before ih =>
    rw [getLast?_cons_or] at skip same
    obtain ⟨first, distinct⟩ := List.nodup_cons.mp distinct
    refine ⟨(same p ?_ ?_).trans linked.1, ih linked.2 skip same distinct⟩
    · rintro rfl
      apply first
      have member := last_place_mem before (some b)
      simp only [List.cons_append, List.map_cons, List.map_append, List.mem_cons, List.mem_append]
        at member ⊢
      exact member.imp_right .inl
    · rintro rfl
      exact first (by simp)

/-- A chain that leads to `a` leads to it after any change behind it. -/
theorem mem_of_reaches {before after nodes' : List α}
    (linked : Linked link p (before ++ a :: after)) (first : link' p' = link p)
    (same : ∀ b ∈ before, link' (some b) = link (some b)) (linked' : Linked link' p' nodes') :
    a ∈ nodes' := by
  induction before generalizing p p' nodes' with
  | nil =>
    have found : link' p' = some a := first.trans linked.1
    cases nodes' with
    | nil => exact absurd (found.symm.trans linked') (by simp)
    | cons b rest =>
      rw [Option.some_inj.mp (found.symm.trans linked'.1)]
      exact List.mem_cons_self
  | cons b before ih =>
    rw [List.forall_mem_cons] at same
    have found : link' p' = some b := first.trans linked.1
    cases nodes' with
    | nil => exact absurd (found.symm.trans linked') (by simp)
    | cons b' rest =>
      obtain rfl := Option.some_inj.mp (found.symm.trans linked'.1)
      apply List.mem_cons_of_mem
      exact ih linked.2 same.1 same.2 linked'.2

/-- A node in front of the chain that it is in: the chain loses its end. -/
theorem no_end (linked : Linked link p nodes) (member : a ∈ nodes) (front : link' p = some a)
    (rest : link' (some a) = link p) (same : ∀ b ∈ nodes, b ≠ a → link' (some b) = link (some b))
    (nodes' : List α) : ¬Linked link' p nodes' := by
  intro linked'
  have distinct := linked.nodup
  obtain ⟨before, after, rfl⟩ := List.append_of_mem member
  have apart : ∀ b ∈ before, link' (some b) = link (some b) := by
    intro b early
    apply same b (List.mem_append_left _ early)
    rintro rfl
    exact (List.nodup_append.mp distinct).2.2 b early b List.mem_cons_self rfl
  cases nodes' with
  | nil => exact absurd (front.symm.trans linked') (by simp)
  | cons b nodes' =>
    obtain rfl := Option.some_inj.mp (front.symm.trans linked'.1)
    -- From `a` the links lead to `a`.
    have again : a ∈ nodes' := linked.mem_of_reaches rest apart linked'.2
    exact (List.nodup_cons.mp linked'.2.nodup_places).1 (List.mem_map_of_mem again)

end Linked

end Library

end Mp3Kernel
