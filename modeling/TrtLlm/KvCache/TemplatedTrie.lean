import TrtLlm.Util.UMap

/-!
`templatedTrie.h`: the lookup tree that the windows of a KV cache manager share.

A node is recorded by its address, the keys from the node up to the root, so that the parent of
`key :: node` is `node` and the nodes below `node` are the addresses it is a suffix of.  A node has
a value for each of the value keys that were set at it.

* `Trie.clearValue`: a value is cleared, and the nodes that are left with no value and no child are
  removed, from the node up to the root (`prune`);
* `Trie.values_prune`, `Trie.nodes_prune_subset`: what the cascade can change;
* `Trie.subtree`: the nodes that are reached from a node through children with a value, parents
  first.
-/

namespace TrtLlm.KvCache

open List Function Option UMap

/-- The lookup tree: its nodes by their addresses, in the order in which the maps of children are
traversed, and the values at them. -/
structure Trie (κ ω β : Type*) where
  nodes : List (List κ)
  nodup : nodes.Nodup
  root_mem : [] ∈ nodes
  parent_mem : ∀ key node, key :: node ∈ nodes → node ∈ nodes
  values : List κ → UMap ω β
  mem_of_value : ∀ node, (values node).entries ≠ [] → node ∈ nodes

namespace Trie

variable {κ ω β : Type*} [DecidableEq κ] [DecidableEq ω]

section

variable (trie : Trie κ ω β) (node : List κ)

/-- The keys of `mNextNodes`. -/
def nextNodes : List κ :=
  trie.nodes.filterMap fun address => match address with
    | [] => none
    | key :: parent => if parent = node then some key else none

/-- `getValue`. -/
def getValue (vkey : ω) : Option β := (trie.values node).find? vkey

/-- `hasChildren`. -/
def hasChildren : Bool := trie.nextNodes node ≠ []

/-- `getChildKeyValues`, with the child nodes in place of their keys. -/
def getChildKeyValues (vkey : ω) : List (List κ × β) :=
  (trie.nextNodes node).filterMap fun key =>
    (trie.getValue (key :: node) vkey).map fun value => (key :: node, value)

end

variable {depth : ℕ} {key : κ} {node node' : List κ} {trie : Trie κ ω β} {value : β} {vkey : ω}

omit [DecidableEq ω] in
lemma mem_nextNodes : key ∈ trie.nextNodes node ↔ key :: node ∈ trie.nodes := by
  rw [nextNodes, mem_filterMap]
  constructor
  · rintro ⟨address, hmem, hkey⟩
    cases address with
    | nil => cases hkey
    | cons key' parent =>
      dsimp only at hkey
      split_ifs at hkey with hparent
      obtain rfl := some.inj hkey
      rwa [hparent] at hmem
  · intro hmem
    exact ⟨key :: node, hmem, if_pos rfl⟩

omit [DecidableEq ω] in
lemma nextNodes_nodup (trie : Trie κ ω β) (node : List κ) : (trie.nextNodes node).Nodup := by
  refine trie.nodup.filterMap fun a a' key hkey hkey' => ?_
  cases a with
  | nil => cases hkey
  | cons k parent =>
    cases a' with
    | nil => cases hkey'
    | cons k' parent' =>
      rw [mem_def] at hkey hkey'
      dsimp only at hkey hkey'
      split_ifs at hkey hkey' with h h'
      rw [h, h', some.inj hkey, some.inj hkey']

lemma mem_getChildKeyValues {child : List κ} : (child, value) ∈ trie.getChildKeyValues node vkey
      ↔ ∃ key, child = key :: node ∧ trie.getValue child vkey = some value := by
  rw [getChildKeyValues, mem_filterMap]
  constructor
  · rintro ⟨key, -, hvalue⟩
    obtain ⟨value', hget, heq⟩ := map_eq_some_iff.mp hvalue
    obtain ⟨rfl, rfl⟩ := Prod.mk.inj heq
    exact ⟨key, rfl, hget⟩
  · rintro ⟨key, rfl, hget⟩
    have hne : (trie.values (key :: node)).entries ≠ [] := fun hnil => by
      have hmem := find?_eq_some_iff.mp hget
      rw [hnil] at hmem
      cases hmem
    exact ⟨key, mem_nextNodes.mpr (trie.mem_of_value _ hne), by rw [hget]; rfl⟩

omit [DecidableEq κ] in
/-- A node that holds a value is there. -/
lemma mem_of_getValue (h : trie.getValue node vkey = some value) : node ∈ trie.nodes := by
  refine trie.mem_of_value node fun hnil => ?_
  have hmem := find?_eq_some_iff.mp h
  rw [hnil] at hmem
  cases hmem

omit [DecidableEq κ] [DecidableEq ω] in
lemma mem_of_suffix (h : node ∈ trie.nodes) (hsuffix : node' <:+ node) : node' ∈ trie.nodes := by
  induction node with
  | nil =>
    rw [suffix_nil.mp hsuffix]
    exact h
  | cons key parent ih =>
    rw [suffix_cons_iff] at hsuffix
    obtain rfl | hsuffix := hsuffix
    · exact h
    · exact ih (trie.parent_mem key parent h) hsuffix

lemma nodup_tails {α : Type*} (l : List α) : l.tails.Nodup := by
  induction l with
  | nil => exact nodup_singleton _
  | cons a l ih =>
    rw [tails_cons, nodup_cons]
    refine ⟨fun hmem => ?_, ih⟩
    have hle := ((mem_tails _ _).mp hmem).length_le
    rw [length_cons] at hle
    omega

omit [DecidableEq κ] [DecidableEq ω] in
/-- The tree is not deeper than it has nodes. -/
lemma length_lt_of_mem (h : node ∈ trie.nodes) : node.length < trie.nodes.length := by
  have hsubset : node.tails ⊆ trie.nodes := fun node' hmem =>
    mem_of_suffix h ((mem_tails node' node).mp hmem)
  have hle := ((nodup_tails node).subperm hsubset).length_le
  rw [length_tails] at hle
  exact hle

/-! ### Clearing a value -/

/-- A node without values and without children is erased from the map of its parent. -/
def eraseNode (trie : Trie κ ω β) (key : κ) (parent : List κ)
    (h : (trie.values (key :: parent)).entries = [] ∧ trie.nextNodes (key :: parent) = []) :
    Trie κ ω β where
  nodes := trie.nodes.erase (key :: parent)
  nodup := trie.nodup.erase _
  root_mem := (mem_erase_of_ne (cons_ne_nil key parent).symm).mpr trie.root_mem
  parent_mem key' node hmem := by
    have hold := mem_of_mem_erase hmem
    refine (mem_erase_of_ne fun heq => ?_).mpr (trie.parent_mem key' node hold)
    have hchild : key' ∈ trie.nextNodes (key :: parent) := mem_nextNodes.mpr (heq ▸ hold)
    rw [h.2] at hchild
    cases hchild
  values := trie.values
  mem_of_value node hvalue :=
    (mem_erase_of_ne fun heq => hvalue (by rw [heq, h.1])).mpr (trie.mem_of_value node hvalue)

/-- The cascade of `clearValue` and `clearNode`: nodes that can be deleted are, up to one that
cannot or the root. -/
def prune : List κ → Trie κ ω β → Trie κ ω β
  | [], trie => trie
  | key :: parent, trie =>
    if h : (trie.values (key :: parent)).entries = [] ∧ trie.nextNodes (key :: parent) = [] then
      prune parent (trie.eraseNode key parent h)
    else trie

section

variable (trie : Trie κ ω β) (node : List κ) (vkey : ω)

/-- A value is erased. -/
def eraseValue : Trie κ ω β :=
  { trie with
    values := update trie.values node ((trie.values node).erase vkey)
    mem_of_value := fun node' hvalue => by
      by_cases heq : node' = node
      · subst heq
        rw [update_self] at hvalue
        refine trie.mem_of_value node' fun hnil => hvalue ?_
        show (trie.values node').entries.filter _ = []
        rw [hnil]
        rfl
      · rw [update_of_ne heq] at hvalue
        exact trie.mem_of_value node' hvalue }

/-- `clearValue`: nothing when the value is not there. -/
def clearValue : Option (Trie κ ω β) :=
  match trie.getValue node vkey with
  | some _ => some (prune node (trie.eraseValue node vkey))
  | none => none

end

omit [DecidableEq ω] in
@[simp] lemma values_prune (node : List κ) (trie : Trie κ ω β) :
    (prune node trie).values = trie.values := by
  induction node generalizing trie with
  | nil => rfl
  | cons key parent ih =>
    rw [prune]
    split_ifs with h
    · rw [ih]
      rfl
    · rfl

@[simp] lemma getValue_prune (node node' : List κ) (trie : Trie κ ω β) (vkey : ω) :
    (prune node trie).getValue node' vkey = trie.getValue node' vkey := by
  rw [getValue, values_prune]
  rfl

omit [DecidableEq ω] in
lemma nodes_prune_subset (node : List κ) (trie : Trie κ ω β) :
    (prune node trie).nodes ⊆ trie.nodes := by
  induction node generalizing trie with
  | nil => exact Subset.refl _
  | cons key parent ih =>
    rw [prune]
    split_ifs with h
    · exact Subset.trans (ih _) (erase_subset ..)
    · exact Subset.refl _

omit [DecidableEq ω] in
/-- A node without values and without children is gone after the cascade that starts at it. -/
lemma notMem_prune {parent : List κ}
    (hvalues : (trie.values (key :: parent)).entries = [])
    (hleaf : trie.nextNodes (key :: parent) = []) :
    key :: parent ∉ (prune (key :: parent) trie).nodes := by
  rw [prune, dif_pos ⟨hvalues, hleaf⟩]
  intro hmem
  exact trie.nodup.not_mem_erase (nodes_prune_subset _ _ hmem)

lemma getValue_eraseValue (trie : Trie κ ω β) (node node' : List κ) (vkey vkey' : ω) :
    (trie.eraseValue node vkey).getValue node' vkey'
      = if node' = node ∧ vkey' = vkey then none else trie.getValue node' vkey' := by
  show UMap.find? (update trie.values node _ node') vkey' = _
  by_cases hnode : node' = node
  · subst hnode
    rw [update_self, find?_erase]
    by_cases hkey : vkey' = vkey
    · rw [if_pos hkey, if_pos ⟨rfl, hkey⟩]
    · rw [if_neg hkey, if_neg fun h => hkey h.2]
      rfl
  · rw [update_of_ne hnode, if_neg fun h => hnode h.1]
    rfl

/-- **What clearing a value changes**: that value, and nodes that hold none. -/
lemma clearValue_spec (h : trie.getValue node vkey = some value) :
    ∃ trie', trie.clearValue node vkey = some trie' ∧ trie'.nodes ⊆ trie.nodes
      ∧ ∀ node' vkey', trie'.getValue node' vkey'
          = if node' = node ∧ vkey' = vkey then none else trie.getValue node' vkey' := by
  refine ⟨prune node (trie.eraseValue node vkey), by rw [clearValue, h],
    nodes_prune_subset node (trie.eraseValue node vkey), fun node' vkey' => ?_⟩
  rw [getValue_prune, getValue_eraseValue]

/-- A leaf that holds one value only is removed with it. -/
lemma notMem_clearValue {trie' : Trie κ ω β} {parent : List κ}
    (hclear : trie.clearValue (key :: parent) vkey = some trie')
    (honly : ∀ vkey', vkey' ≠ vkey → trie.getValue (key :: parent) vkey' = none)
    (hleaf : trie.nextNodes (key :: parent) = []) : key :: parent ∉ trie'.nodes := by
  rw [clearValue] at hclear
  split at hclear
  · obtain rfl := some.inj hclear
    refine notMem_prune ?_ hleaf
    show (update trie.values (key :: parent) _ (key :: parent)).entries = []
    rw [update_self, eq_nil_iff_forall_not_mem]
    rintro ⟨vkey', value'⟩ hmem
    have hfind := find?_eq_some_iff.mpr hmem
    rw [find?_erase] at hfind
    split_ifs at hfind with hkey
    have hnone := honly vkey' hkey
    rw [getValue, hfind] at hnone
    cases hnone
  · cases hclear

/-! ### The nodes below a node -/

/-- The traversal of a node and of the children that have a value, with a stack that is emptied from
its top: a node stands before what is below it, and the last child is followed first. -/
def subtree (trie : Trie κ ω β) (vkey : ω) : ℕ → List κ → List (List κ)
  | 0, _ => []
  | depth + 1, node =>
    node :: (trie.getChildKeyValues node vkey).reverse.flatMap fun child =>
      trie.subtree vkey depth child.1

/-- All of the traversal is at or below the node. -/
lemma suffix_of_mem_subtree (h : node' ∈ trie.subtree vkey depth node) : node <:+ node' := by
  induction depth generalizing node with
  | zero => cases h
  | succ depth ih =>
    rw [subtree, mem_cons] at h
    obtain rfl | h := h
    · exact suffix_refl _
    · obtain ⟨⟨child, value⟩, hchild, hmem⟩ := mem_flatMap.mp h
      obtain ⟨key, rfl, -⟩ := mem_getChildKeyValues.mp (mem_reverse.mp hchild)
      exact (suffix_cons key node).trans (ih hmem)

/-- What is traversed below a node has a value. -/
lemma getValue_of_mem_subtree (h : node' ∈ trie.subtree vkey depth node) (hne : node' ≠ node) :
    ∃ value, trie.getValue node' vkey = some value := by
  induction depth generalizing node with
  | zero => cases h
  | succ depth ih =>
    rw [subtree, mem_cons] at h
    obtain rfl | h := h
    · exact absurd rfl hne
    · obtain ⟨⟨child, value⟩, hchild, hmem⟩ := mem_flatMap.mp h
      obtain ⟨key, -, hget⟩ := mem_getChildKeyValues.mp (mem_reverse.mp hchild)
      by_cases heq : node' = child
      · exact ⟨value, heq ▸ hget⟩
      · exact ih hmem heq

/-- The children are different nodes. -/
lemma pairwise_getChildKeyValues (trie : Trie κ ω β) (node : List κ) (vkey : ω) :
    (trie.getChildKeyValues node vkey).Pairwise fun child child' => child.1 ≠ child'.1 := by
  rw [getChildKeyValues, pairwise_filterMap]
  refine (trie.nextNodes_nodup node).imp fun {key key'} hne child hchild child' hchild' heq =>
    hne ?_
  obtain ⟨value, -, rfl⟩ := map_eq_some_iff.mp hchild
  obtain ⟨value', -, rfl⟩ := map_eq_some_iff.mp hchild'
  exact (cons.inj heq).1

/-- A chain of nodes with a value, from a node down. -/
lemma mem_subtree (path : List κ) (hdepth : path.length < depth)
    (hvalue : ∀ suffix, suffix <:+ path → suffix ≠ [] →
      ∃ value, trie.getValue (suffix ++ node) vkey = some value) :
    path ++ node ∈ trie.subtree vkey depth node := by
  induction path using reverseRecOn generalizing depth node with
  | nil =>
    obtain ⟨depth, rfl⟩ : ∃ d, depth = d + 1 := ⟨depth - 1, by simp at hdepth; omega⟩
    rw [subtree]
    exact mem_cons_self
  | append_singleton path key ih =>
    rw [length_append, length_singleton] at hdepth
    obtain ⟨depth, rfl⟩ : ∃ d, depth = d + 1 := ⟨depth - 1, by omega⟩
    rw [subtree, mem_cons]
    obtain ⟨value, hget⟩ := hvalue [key] (suffix_append path [key]) (cons_ne_nil _ _)
    refine .inr (mem_flatMap.mpr ⟨(key :: node, value), ?_, ?_⟩)
    · exact mem_reverse.mpr (mem_getChildKeyValues.mpr ⟨key, rfl, hget⟩)
    · rw [append_assoc]
      refine ih (by omega) fun suffix hsuffix hne => ?_
      have hlong :=
        hvalue (suffix ++ [key]) ((suffix_append_inj_of_length_eq rfl).mpr ⟨hsuffix, rfl⟩)
        (by simp)
      rwa [append_assoc] at hlong

/-- **No node of the traversal stands after one that is below it.** -/
lemma subtree_pairwise (trie : Trie κ ω β) (vkey : ω) (depth : ℕ) (node : List κ) :
    (trie.subtree vkey depth node).Pairwise fun a b => ¬ b <:+ a := by
  induction depth generalizing node with
  | zero => exact List.Pairwise.nil
  | succ depth ih =>
    rw [subtree, pairwise_cons]
    constructor
    · intro node' hmem hsuffix
      obtain ⟨⟨child, value⟩, hchild, hmem⟩ := mem_flatMap.mp hmem
      obtain ⟨key, rfl, -⟩ := mem_getChildKeyValues.mp (mem_reverse.mp hchild)
      have hlong := (suffix_of_mem_subtree hmem).length_le
      have hshort := hsuffix.length_le
      rw [length_cons] at hlong
      omega
    · rw [pairwise_flatMap]
      refine ⟨fun child _ => ih child.1, ?_⟩
      rw [pairwise_reverse]
      refine (pairwise_getChildKeyValues trie node vkey).imp_of_mem
        fun {child child'} hchild hchild' hne a ha b hb hsuffix => hne ?_
      obtain ⟨key, hkey, -⟩ := mem_getChildKeyValues.mp hchild
      obtain ⟨key', hkey', -⟩ := mem_getChildKeyValues.mp hchild'
      -- two nodes of one length above a third are the same
      have hlen : child.1.length = child'.1.length := by rw [hkey, hkey', length_cons, length_cons]
      refine (suffix_of_suffix_length_le ?_ (suffix_of_mem_subtree ha) hlen.le).eq_of_length hlen
      exact (suffix_of_mem_subtree hb).trans hsuffix

end Trie

end TrtLlm.KvCache
