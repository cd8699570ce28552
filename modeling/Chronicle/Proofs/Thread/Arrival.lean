import Chronicle.Proofs.Text.Line
import Chronicle.Proofs.Thread.Depth
import Mathlib.Data.List.Induction
import Mathlib.Data.String.Basic

/-!
# Threads do not depend on the order of arrival

The nodes of a list of records are told by the replies of their ids. Whatever leaves to each id the
first record that carries it therefore leaves the nodes as they are.

* `firstWith`: the first record with an id. `byId_congr` says that the nodes by id are told by the
  replies that these records make.
* `Thinned`, `links_of_thinned`: records that bring no new id can go.
* `map_fst_links`: the nodes in order stand in the order in which their ids arrive.
* `addNode`, `foldl_addNode`: the nodes as a map that grows record by record, beside the table of
  replies. The invariant is that it holds the nodes of the ids so far.
* `Listing`, `Listing.IsAfter.foldl_ask`: the nodes taken out of the map one after the other, as the records
  ask for them. The invariant is that those of the ids so far are listed and the others are left.
* `ToldByReplies`, `toldByReplies`: all of this.
-/

namespace Chronicle

theorem ThreadRecord.id?_eq_some_iff {r : ThreadRecord} {id : String} :
    r.id? = some id ↔ id ≠ "" ∧ r.id.map Text.trimmed = some id := by
  cases htext : r.id with
  | none => simp [ThreadRecord.id?, ThreadRecord.nameOf, htext]
  | some text =>
    have hblank := Text.trimmed_eq_empty_iff (s := text)
    simp only [ThreadRecord.id?, ThreadRecord.nameOf, htext, Option.bind_some, Option.map_some,
      Option.some.injEq]
    split
    · rename_i h
      have hempty := hblank.mpr h
      constructor
      · intro hnone
        cases hnone
      · rintro ⟨hid, rfl⟩
        exact absurd hempty hid
    · rename_i h
      rw [Option.some.injEq]
      constructor
      · rintro rfl
        exact ⟨fun hempty => h (hblank.mp hempty), rfl⟩
      · exact And.right

namespace Thread

def firstWith (records : List ThreadRecord) (id : String) : Option ThreadRecord :=
  records.find? fun r => r.id? == some id

/-! ## Records in another order -/

section order
variable {records others fewer : List ThreadRecord} {links links' : Links} {most : Nat}

theorem climb_congr (h : ∀ x, links.lookup x = links'.lookup x) (most : Nat)
    (visited : List String) (parent : Option String) :
    climb links most visited parent = climb links' most visited parent := by
  induction most generalizing visited parent with
  | zero => rfl
  | succ most ih =>
    cases parent with
    | none => rfl
    | some parent => simp only [climb, h, ih]

theorem mem_inOrder_congr (h : ∀ id, replyOf others id = replyOf records id) (n : ThreadNode) :
    n ∈ inOrder others most ↔ n ∈ inOrder records most := by
  have hlookup (x : String) : (Thread.links others).lookup x = (Thread.links records).lookup x := by
    rw [lookup_links, lookup_links, h]
  rw [mem_inOrder, mem_inOrder, h, depthFrom, depthFrom, climb_congr hlookup]

theorem nodup_map_id_inOrder (records : List ThreadRecord) (most : Nat) :
    ((inOrder records most).map ThreadNode.id).Nodup := by
  rw [map_id_inOrder]
  exact nodup_links records

theorem byId_perm (records : List ThreadRecord) (most : Nat) :
    (byId records most).Perm (inOrder records most) :=
  List.mergeSort_perm ..

theorem pairwise_byId (records : List ThreadRecord) (most : Nat) :
    (byId records most).Pairwise fun a b => a.id ≤ b.id := by
  have hsorted : (byId records most).Pairwise fun a b => (!decide (b.id < a.id)) = true := by
    refine List.pairwise_mergeSort ?_ ?_ (inOrder records most)
    · intro a b c hab hbc
      simp only [Bool.not_eq_true', decide_eq_false_iff_not, not_lt] at hab hbc ⊢
      exact le_trans hab hbc
    · intro a b
      simp only [Bool.or_eq_true, Bool.not_eq_true', decide_eq_false_iff_not, not_lt]
      exact le_total a.id b.id
  refine hsorted.imp fun {a b} hab => ?_
  simpa only [Bool.not_eq_true', decide_eq_false_iff_not, not_lt] using hab

/-- **The nodes by id are told by the replies of the ids.** -/
theorem byId_congr (h : ∀ id, replyOf others id = replyOf records id) (most : Nat) :
    byId others most = byId records most := by
  have hperm : (inOrder others most).Perm (inOrder records most) :=
    (List.perm_ext_iff_of_nodup (nodup_map_id_inOrder others most).of_map
      (nodup_map_id_inOrder records most).of_map).mpr fun n => mem_inOrder_congr h n
  have hperm' := (byId_perm others most).trans (hperm.trans (byId_perm records most).symm)
  refine hperm'.eq_of_pairwise ?_ (pairwise_byId others most) (pairwise_byId records most)
  intro a b ha hb hab hba
  have ha := (byId_perm others most).mem_iff.mp ha
  have hb := hperm.mem_iff.mpr ((byId_perm records most).mem_iff.mp hb)
  exact List.inj_on_of_nodup_map (nodup_map_id_inOrder others most) ha hb (le_antisymm hab hba)

end order

/-! ## Records that bring no new id -/

/-- `fewer` is what is left of the second list when some records are taken out that have no id, or
one of the ids `seen` before them. -/
inductive Thinned : (seen : List String) → (fewer records : List ThreadRecord) → Prop where
  | nil {seen : List String} : Thinned seen [] []
  | keep {seen : List String} {r : ThreadRecord} {fewer records : List ThreadRecord}
      (h : Thinned (r.id?.toList ++ seen) fewer records) : Thinned seen (r :: fewer) (r :: records)
  | drop {seen : List String} {r : ThreadRecord} {fewer records : List ThreadRecord}
      (hseen : ∀ id ∈ r.id?, id ∈ seen) (h : Thinned seen fewer records) :
      Thinned seen fewer (r :: records)

section arrival
variable {records fewer done : List ThreadRecord} {r : ThreadRecord} {seen : List String}
  {links : Links} {id : String}

theorem addRecord_of_id (hid : r.id? = some id) : addRecord links r = addLink links id r.parent? := by
  rw [addRecord, hid]

theorem addRecord_of_none (hid : r.id? = none) : addRecord links r = links := by
  rw [addRecord, hid]

theorem addLink_of_isSome (h : (links.lookup id).isSome) (parent : Option String) :
    addLink links id parent = links := by
  rw [addLink, if_pos h]

theorem addLink_of_none (h : links.lookup id = none) (parent : Option String) :
    addLink links id parent = links ++ [(id, parent)] := by
  rw [addLink, h]
  rfl

theorem foldl_addRecord_of_thinned (h : Thinned seen fewer records)
    (hseen : ∀ id ∈ seen, (links.lookup id).isSome) :
    fewer.foldl addRecord links = records.foldl addRecord links := by
  induction h generalizing links with
  | nil => rfl
  | @keep seen r fewer records h ih =>
    refine ih fun id hmem => ?_
    rcases List.mem_append.mp hmem with hid | hmem
    · rw [addRecord_of_id (Option.mem_toList.mp hid), lookup_addLink, if_pos rfl]
      simp
    · have hold := hseen id hmem
      cases hid : r.id? with
      | none => rwa [addRecord_of_none hid]
      | some new =>
        rw [addRecord_of_id hid, lookup_addLink, Option.isSome_or, hold]
        rfl
  | @drop seen r fewer records hr h ih =>
    rw [List.foldl_cons, ih hseen]
    cases hid : r.id? with
    | none => rw [addRecord_of_none hid]
    | some id => rw [addRecord_of_id hid, addLink_of_isSome (hseen id (hr id hid))]

/-- **Records that bring no new id can go.** -/
theorem links_of_thinned (h : Thinned [] fewer records) :
    Thread.links fewer = Thread.links records :=
  foldl_addRecord_of_thinned h (by simp)

theorem links_concat (records : List ThreadRecord) (r : ThreadRecord) :
    Thread.links (records ++ [r]) = addRecord (Thread.links records) r := by
  rw [Thread.links, List.foldl_append]
  rfl

theorem isSome_lookup_links_iff :
    ((Thread.links records).lookup id).isSome ↔ id ∈ records.filterMap ThreadRecord.id? := by
  rw [lookup_links, isSome_replyOf_iff, List.mem_filterMap]

/-- **The ids stand in the order in which they arrive**, each once. -/
theorem map_fst_links (records : List ThreadRecord) :
    (Thread.links records).map Prod.fst = (records.filterMap ThreadRecord.id?).eraseDups := by
  induction records using List.reverseRecOn with
  | nil => rfl
  | append_singleton records r ih =>
    rw [links_concat, List.filterMap_append, List.eraseDups_append, ← ih]
    cases hid : r.id? with
    | none => simp [addRecord_of_none hid, hid]
    | some id =>
      have hcarried : ((links records).lookup id).isSome ↔ id ∈ records.filterMap ThreadRecord.id? :=
        isSome_lookup_links_iff
      rw [addRecord_of_id hid, List.filterMap_cons_some hid, List.filterMap_nil]
      generalize records.filterMap ThreadRecord.id? = ids at hcarried
      by_cases hmem : id ∈ ids
      · rw [addLink_of_isSome (hcarried.mpr hmem)]
        simp [List.removeAll, hmem]
      · have hnone := Option.not_isSome_iff_eq_none.mp (mt hcarried.mp hmem)
        rw [addLink_of_none hnone, List.map_append]
        simp [List.removeAll, hmem, List.eraseDups_cons]

theorem replyOf_append_cons (hnew : (Thread.links done).lookup id = none) (hid : r.id? = some id)
    (rest : List ThreadRecord) : replyOf (done ++ r :: rest) id = some r.parent? := by
  have hnone : replyOf done id = none := by rw [← lookup_links, hnew]
  rw [replyOf, Option.map_eq_none_iff] at hnone
  rw [replyOf, List.find?_append, hnone, Option.none_or, List.find?_cons_of_pos (by simp [hid])]
  rfl

end arrival

/-! ## The map record by record -/

/-- Adds the node of a record's id, unless it has one already. Its reply is looked up in a table. -/
def addNode (replies : Links) (most : Nat) (nodes : List ThreadNode) (r : ThreadRecord) :
    List ThreadNode :=
  match r.id? with
  | none => nodes
  | some id =>
    if nodes.any fun n => n.id == id then nodes
    else nodes ++ [node replies most (id, (replies.lookup id).join)]

section map
variable {records done rest : List ThreadRecord} {r : ThreadRecord} {most : Nat} {id : String}

theorem any_id_map_node (links replies : Links) (most : Nat) (id : String) :
    ((links.map (node replies most)).any fun n => n.id == id) = (links.lookup id).isSome := by
  induction links with
  | nil => rfl
  | cons link links ih =>
    rw [List.map_cons, List.any_cons, ih, List.lookup_cons]
    by_cases heq : link.1 = id
    · simp [node, heq]
    · have hne : (id == link.1) = false := beq_eq_false_iff_ne.mpr (Ne.symm heq)
      simp [node, heq, hne]

theorem addNode_map_node (h : done ++ r :: rest = records) :
    addNode (links records) most ((links done).map (node (links records) most)) r =
      (links (done ++ [r])).map (node (links records) most) := by
  rw [links_concat, addNode]
  cases hid : r.id? with
  | none => rw [addRecord_of_none hid]
  | some id =>
    simp only [any_id_map_node]
    rw [addRecord_of_id hid]
    cases hnew : (links done).lookup id with
    | some reply =>
      rw [addLink_of_isSome (by simp [hnew])]
      rfl
    | none =>
      rw [addLink_of_none hnew, lookup_links, ← h, replyOf_append_cons hnew hid]
      simp

/-- **The map that grows record by record holds the nodes of the ids so far.** -/
theorem foldl_addNode (h : done ++ rest = records) :
    rest.foldl (addNode (links records) most) ((links done).map (node (links records) most)) =
      inOrder records most := by
  induction rest generalizing done with
  | nil => rw [inOrder, ← h, List.append_nil]; rfl
  | cons r rest ih =>
    rw [List.foldl_cons, addNode_map_node h]
    exact ih (by rw [List.append_assoc]; exact h)

end map

/-! ## Nodes taken out of the map -/

/-- Nodes that are taken out of a map: the ids asked for so far, the nodes that are left and those
that are listed. -/
structure Listing where
  asked : List String := []
  left : List ThreadNode
  listed : List ThreadNode := []

/-- Takes out the node of a record's name, if that has not been asked for before. -/
def Listing.ask (l : Listing) (r : ThreadRecord) : Listing :=
  match r.id.map Text.trimmed with
  | none => l
  | some id =>
    if id ∈ l.asked then l
    else
      match l.left.find? fun n => n.id == id with
      | none => { l with asked := id :: l.asked }
      | some n =>
        { asked := id :: l.asked, left := l.left.filter fun other => other.id != id,
          listed := l.listed ++ [n] }

/-- The nodes of the ids so far are listed and the others are left. -/
structure Listing.IsAfter (records : List ThreadRecord) (most : Nat) (done : List ThreadRecord)
    (l : Listing) : Prop where
  asked (id : String) : id ≠ "" → (id ∈ l.asked ↔ ((links done).lookup id).isSome)
  left (n : ThreadNode) :
    n ∈ l.left ↔ n ∈ inOrder records most ∧ (links done).lookup n.id = none
  listed : l.listed = (links done).map (node (links records) most)

section listing
variable {records done rest : List ThreadRecord} {r : ThreadRecord} {most : Nat} {id : String}
  {l : Listing} {n : ThreadNode}

theorem id_ne_empty (h : n ∈ inOrder records most) : n.id ≠ "" := by
  have hcarried : (replyOf records n.id).isSome := by rw [(mem_inOrder.mp h).1]; rfl
  obtain ⟨r, -, hid⟩ := isSome_replyOf_iff.mp hcarried
  exact (ThreadRecord.id?_eq_some_iff.mp hid).1

theorem Listing.IsAfter.of_links_eq (h : l.IsAfter records most done)
    (heq : links (done ++ [r]) = links done) : l.IsAfter records most (done ++ [r]) where
  asked := heq ▸ h.asked
  left := heq ▸ h.left
  listed := heq ▸ h.listed

theorem Listing.IsAfter.find?_left (h : l.IsAfter records most done)
    (hnew : (links done).lookup id = none) (hsplit : done ++ r :: rest = records)
    (hid : r.id? = some id) :
    (l.left.find? fun n => n.id == id) = some (node (links records) most (id, r.parent?)) := by
  have hreply : replyOf records id = some r.parent? := hsplit ▸ replyOf_append_cons hnew hid rest
  have hmem : node (links records) most (id, r.parent?) ∈ inOrder records most :=
    mem_inOrder.mpr ⟨hreply, rfl⟩
  cases hfind : l.left.find? fun n => n.id == id with
  | none =>
    have hmissing := List.find?_eq_none.mp hfind _ ((h.left _).mpr ⟨hmem, hnew⟩)
    simp [node] at hmissing
  | some n =>
    have hn := ((h.left n).mp (List.mem_of_find?_eq_some hfind)).1
    have hnid : n.id = id := by simpa using List.find?_some hfind
    rw [List.inj_on_of_nodup_map (nodup_map_id_inOrder records most) hn hmem hnid]

theorem Listing.IsAfter.ask_of_none (h : l.IsAfter records most done) (hid : r.id? = none) :
    (l.ask r).IsAfter records most (done ++ [r]) := by
  have hafter := h.of_links_eq (by rw [links_concat, addRecord_of_none hid])
  rw [Listing.ask]
  cases hname : r.id.map Text.trimmed with
  | none => exact hafter
  | some id =>
    -- a blank name may be asked for, but no node has it
    obtain rfl : id = "" := by
      by_contra hne
      rw [ThreadRecord.id?_eq_some_iff.mpr ⟨hne, hname⟩] at hid
      cases hid
    have hnone : (l.left.find? fun n => n.id == "") = none := by
      rw [List.find?_eq_none]
      intro n hn
      simpa using id_ne_empty ((h.left n).mp hn).1
    simp only [hnone]
    split
    · exact hafter
    · refine ⟨fun other hother => ?_, hafter.left, hafter.listed⟩
      rw [← hafter.asked other hother, List.mem_cons]
      simp [hother]

theorem Listing.IsAfter.ask_of_isSome (h : l.IsAfter records most done) (hid : r.id? = some id)
    (hold : ((links done).lookup id).isSome) : (l.ask r).IsAfter records most (done ++ [r]) := by
  obtain ⟨hempty, hname⟩ := ThreadRecord.id?_eq_some_iff.mp hid
  simp only [Listing.ask, hname, if_pos ((h.asked id hempty).mpr hold)]
  exact h.of_links_eq (by rw [links_concat, addRecord_of_id hid, addLink_of_isSome hold])

theorem Listing.IsAfter.ask_of_new (h : l.IsAfter records most done)
    (hsplit : done ++ r :: rest = records) (hid : r.id? = some id)
    (hnew : (links done).lookup id = none) : (l.ask r).IsAfter records most (done ++ [r]) := by
  obtain ⟨hempty, hname⟩ := ThreadRecord.id?_eq_some_iff.mp hid
  have hasked : id ∉ l.asked := by
    rw [h.asked id hempty, hnew]
    simp
  have hlinks : links (done ++ [r]) = links done ++ [(id, r.parent?)] := by
    rw [links_concat, addRecord_of_id hid, addLink_of_none hnew]
  have hlookup (x : String) : (links (done ++ [r])).lookup x =
      ((links done).lookup x).or (if id = x then some r.parent? else none) := by
    rw [hlinks, ← addLink_of_none hnew, lookup_addLink]
  simp only [Listing.ask, hname, if_neg hasked, h.find?_left hnew hsplit hid]
  constructor
  · intro other hother
    rw [List.mem_cons, h.asked other hother, hlookup]
    by_cases heq : id = other
    · simp [heq]
    · simp [heq, Ne.symm heq]
  · intro n
    rw [List.mem_filter, h.left, hlookup]
    by_cases heq : id = n.id
    · simp [heq]
    · simp [heq, Ne.symm heq]
  · rw [hlinks, h.listed, List.map_append]
    rfl

theorem Listing.IsAfter.ask (h : l.IsAfter records most done)
    (hsplit : done ++ r :: rest = records) : (l.ask r).IsAfter records most (done ++ [r]) := by
  cases hid : r.id? with
  | none => exact h.ask_of_none hid
  | some id =>
    cases hnew : (links done).lookup id with
    | none => exact h.ask_of_new hsplit hid hnew
    | some reply => exact h.ask_of_isSome hid (by rw [hnew]; rfl)

/-- **The nodes come out of the map in the order in which their ids arrive.** -/
theorem Listing.IsAfter.foldl_ask (h : l.IsAfter records most done)
    (hsplit : done ++ rest = records) : (rest.foldl Listing.ask l).listed = inOrder records most := by
  induction rest generalizing done l with
  | nil => rw [List.foldl_nil, h.listed, inOrder, ← hsplit, List.append_nil]
  | cons r rest ih => exact ih (h.ask hsplit) (by rw [List.append_assoc]; exact hsplit)

theorem Listing.isAfter_nil {nodes : List ThreadNode} (h : nodes.Perm (inOrder records most)) :
    Listing.IsAfter records most [] { left := nodes } where
  asked id _ := by simp [links]
  left n := by simp [links, h.mem_iff]
  listed := rfl

end listing

/-- The nodes of these records are told by the replies of their ids, whatever the order in which
the records arrive. -/
structure ToldByReplies (records : List ThreadRecord) (most : Nat) : Prop where
  /-- The map has a node for each name that is not blank, without the blanks around it. -/
  ids (id : String) : id ∈ (byId records most).map ThreadNode.id ↔
    id ≠ "" ∧ ∃ r ∈ records, r.id.map Text.trimmed = some id
  once : ((byId records most).map ThreadNode.id).Nodup
  /-- Records without an id can go, and so can those with an id that came before. -/
  thinned (fewer : List ThreadRecord) : Thinned [] fewer records →
    byId fewer most = byId records most ∧ inOrder fewer most = inOrder records most
  /-- The order of the records does not count, as long as each id keeps its first record. -/
  reordered (others : List ThreadRecord) :
    (∀ id, firstWith others id = firstWith records id) → byId others most = byId records most
  /-- The map that grows record by record holds the same nodes. -/
  grown : (records.foldl (addNode (links records) most) []).Perm (byId records most)
  /-- Each node of the map is listed once. -/
  listed : (inOrder records most).Perm (byId records most)
  /-- They are listed in the order in which their ids first appear. -/
  arrival : (inOrder records most).map ThreadNode.id =
    (records.filterMap ThreadRecord.id?).eraseDups
  /-- They are what comes out of the map when the records ask for them, however it is ordered. -/
  taken (nodes : List ThreadNode) : nodes.Perm (byId records most) →
    (records.foldl Listing.ask { left := nodes }).listed = inOrder records most

/-- **The nodes of records are told by the replies of their ids.** -/
theorem toldByReplies (records : List ThreadRecord) (most : Nat) : ToldByReplies records most where
  ids id := by
    rw [((byId_perm records most).map ThreadNode.id).mem_iff, map_id_inOrder, map_fst_links,
      List.mem_eraseDups, List.mem_filterMap]
    simp only [ThreadRecord.id?_eq_some_iff]
    constructor
    · rintro ⟨r, hr, hid, hname⟩
      exact ⟨hid, r, hr, hname⟩
    · rintro ⟨hid, r, hr, hname⟩
      exact ⟨r, hr, hid, hname⟩
  once := ((byId_perm records most).map ThreadNode.id).nodup_iff.mpr (nodup_map_id_inOrder ..)
  thinned fewer h := by
    have hsame : inOrder fewer most = inOrder records most := by
      rw [inOrder, inOrder, links_of_thinned h]
    exact ⟨by rw [byId, byId, hsame], hsame⟩
  reordered others h := byId_congr (fun id => congrArg (Option.map ThreadRecord.parent?) (h id)) most
  grown := by
    have hgrown : records.foldl (addNode (links records) most) [] = inOrder records most :=
      foldl_addNode (List.nil_append records)
    rw [hgrown]
    exact (byId_perm records most).symm
  listed := (byId_perm records most).symm
  arrival := by rw [map_id_inOrder, map_fst_links]
  taken nodes h :=
    (Listing.isAfter_nil (h.trans (byId_perm records most))).foldl_ask (List.nil_append records)

/-- A blank name, an answer that comes before what it answers, and an id that comes twice. -/
example : (inOrder [⟨some " ", none⟩, ⟨some "b ", some "a"⟩, ⟨some "a", none⟩, ⟨some "b", none⟩] 5).map
    (fun n => (n.id, n.indent)) = [("b", 1), ("a", 0)] := by
  decide

end Thread

end Chronicle
