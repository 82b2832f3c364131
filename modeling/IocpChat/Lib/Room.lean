import Mathlib.Data.Finset.Basic
import Mathlib.Data.List.Infix

/-! Rooms: members who are told something, one of them or all but the author. Whoever is
in the room hears what is published from then on, and all members hear it in the order
in which it was published. -/

/-- `told` is kept also of those who have left; it says who published a message. -/
structure Room (ι α : Type*) where
  members : Finset ι
  /-- Everything published, with its author. -/
  log : List (ι × α)
  told : ι → List (Option ι × α)

namespace Room

variable {ι α : Type*}

def empty : Room ι α := ⟨∅, [], fun _ => []⟩

/-- What the member heard of others. -/
def heard (r : Room ι α) (i : ι) : List (ι × α) :=
  (r.told i).filterMap fun m => m.1.map fun author => (author, m.2)

variable [DecidableEq ι]

def join (r : Room ι α) (i : ι) : Room ι α := { r with members := insert i r.members }

def leave (r : Room ι α) (i : ι) : Room ι α := { r with members := r.members.erase i }

/-- The room itself tells a member something. -/
def tell (r : Room ι α) (i : ι) (a : α) : Room ι α :=
  { r with told := fun k => if k ∈ r.members ∧ k = i then r.told k ++ [(none, a)] else r.told k }

def publish (r : Room ι α) (author : ι) (a : α) : Room ι α :=
  { r with
    log := r.log ++ [(author, a)]
    told := fun k =>
      if k ∈ r.members ∧ k ≠ author then r.told k ++ [(some author, a)] else r.told k }

theorem heard_tell (r : Room ι α) (i k : ι) (a : α) : (r.tell i a).heard k = r.heard k := by
  unfold heard tell
  dsimp only
  split_ifs
  · rw [List.filterMap_append]
    exact List.append_nil _
  · rfl

theorem heard_publish (r : Room ι α) (author k : ι) (a : α) : (r.publish author a).heard k =
    if k ∈ r.members ∧ k ≠ author then r.heard k ++ [(author, a)] else r.heard k := by
  unfold heard publish
  dsimp only
  split_ifs
  · rw [List.filterMap_append]
    rfl
  · rfl

/-! ### What a member has heard -/

/-- `i` has heard a piece of the log, without what it published itself: the piece begins
behind `before`, and goes on to the end while `i` is a member. -/
def Attends (r : Room ι α) (i : ι) (before : List (ι × α)) : Prop :=
  ∃ piece after, r.log = before ++ piece ++ after ∧ r.heard i = piece.filter (·.1 ≠ i) ∧
    (i ∈ r.members → after = [])

variable {r : Room ι α} {i j : ι} {before : List (ι × α)}

theorem attends_join (hnew : r.heard i = []) : (r.join i).Attends i r.log := by
  refine ⟨[], [], ?_, hnew, fun _ => rfl⟩
  rw [List.append_nil, List.append_nil]
  rfl

/-- Who joins or leaves is not heard by anybody. -/
theorem Attends.same {r' : Room ι α} (h : r.Attends i before) (hlog : r'.log = r.log)
    (htold : r'.told = r.told) (hmembers : i ∈ r'.members → i ∈ r.members) :
    r'.Attends i before := by
  obtain ⟨piece, after, hpieces, hheard, hend⟩ := h
  refine ⟨piece, after, hlog.trans hpieces, ?_, fun hi => hend (hmembers hi)⟩
  rw [heard, htold]
  exact hheard

theorem Attends.tell (h : r.Attends i before) (j : ι) (a : α) : (r.tell j a).Attends i before := by
  obtain ⟨piece, after, hlog, hheard, hend⟩ := h
  exact ⟨piece, after, hlog, (r.heard_tell j i a).trans hheard, hend⟩

theorem Attends.publish (h : r.Attends i before) (author : ι) (a : α) :
    (r.publish author a).Attends i before := by
  obtain ⟨piece, after, hlog, hheard, hend⟩ := h
  have hlog' : (r.publish author a).log = before ++ piece ++ after ++ [(author, a)] :=
    congrArg (· ++ _) hlog
  by_cases hi : i ∈ r.members
  · obtain rfl := hend hi
    refine ⟨piece ++ [(author, a)], [], ?_, ?_, fun _ => rfl⟩
    · rw [hlog', List.append_nil, List.append_nil, List.append_assoc]
    · rw [heard_publish, List.filter_append, hheard]
      by_cases hown : author = i
      · simp [hown]
      · simp [hi, hown, Ne.symm hown]
  · refine ⟨piece, after ++ [(author, a)], ?_, ?_, fun hmem => absurd hmem hi⟩
    · rw [hlog', List.append_assoc]
    · rw [heard_publish, if_neg fun hmem => hi hmem.1, hheard]

end Room
