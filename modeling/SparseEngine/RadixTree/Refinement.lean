import SparseEngine.RadixTree.Queries

/-!
# The radix tree refines a forest of recorded pairs

`BlockForest` is the abstract tree: the recorded (parent, block) pairs in the
order in which they were recorded, every block after its parent.  The three
mutating methods are run side by side on the compressed tree and on the
recorded pairs, and the tree represents the pairs after every run of
consistent calls.
-/

namespace RadixTreeBackend

variable {Id : Type} [DecidableEq Id]
variable {tree : RadixTreeBackend Id} {parent : Id → Option Id} {keys : List Id}

/-! ## `insert_child` -/

theorem addPath_nil (node : ℕ) (blockId : Id) (tree : RadixTreeBackend Id) :
    addPath node blockId [] tree = addChildNode node blockId
      (if (tree.nodes node).children.entries = [] then tree.discardLeaf node else tree) := rfl

variable {blockId id : Id} {node : ℕ} {path : List Id}

section

variable (hrep : Represents tree parent keys)

include hrep

theorem insertChild_of_mem (hmem : blockId ∈ keys) (parentBlockId : Option Id) :
    insertChild parentBlockId blockId tree = (.ok (), tree) := by
  obtain ⟨n, i, hloc⟩ := (hrep.domain blockId).mp hmem
  simp [insertChild, hloc, Routine.read, Bind.bind, Pure.pure]

theorem insertChild_of_missing {parentId : Id} (hnew : blockId ∉ keys) (hmissing : parentId ∉ keys) :
    ∃ error, insertChild (some parentId) blockId tree = (.error error, tree) := by
  simp [insertChild, hrep.not_mem_keys_iff.mp hnew, hrep.not_mem_keys_iff.mp hmissing,
    Routine.read, Routine.raise, Bind.bind]

/-- After `_split_after` the parent block is the last one of its node. -/
theorem splitAfter_last {index : ℕ} (hloc : tree.locations.get? id = some (node, index)) :
    (tree.splitAfter node index).Live node ∧
      ((tree.splitAfter node index).nodes node).segment.getLast? = some id := by
  have hget := (hrep.located id node index hloc).2.2
  have hbound := hrep.index_lt hloc
  cases hsuffix : (tree.nodes node).segment.drop (index + 1) with
  | nil =>
      have hsame : tree.splitAfter node index = tree := by
        simp [RadixTreeBackend.splitAfter, hsuffix]
      have hlast : (tree.nodes node).segment.length = index + 1 := by
        have := List.drop_eq_nil_iff.mp hsuffix
        omega
      rw [hsame, List.getLast?_eq_getElem?, hlast, Nat.add_sub_cancel]
      exact ⟨Represents.live_of_located hloc, hget⟩
  | cons first rest =>
      have hsplit := splitAfter_edgeSplit hrep hloc hsuffix
      have hlast : ((tree.nodes node).segment.take (index + 1))[index]? = some id := by
        rw [List.getElem?_take_of_lt (by omega)]
        exact hget
      refine ⟨Represents.live_of_located (hsplit.kept_loc index id hlast), ?_⟩
      rw [hsplit.upper_eq, List.getLast?_eq_getElem?, List.length_take, min_eq_left (by omega), Nat.add_sub_cancel]
      exact hlast

theorem children_get?_of_not_mem (hlive : tree.Live node) (hnew : id ∉ keys) :
    (tree.nodes node).children.get? id = none := by
  cases hget : (tree.nodes node).children.get? id with
  | none => rfl
  | some n => exact absurd (hrep.mem_keys (hrep.below node id n hlive hget).1) hnew

/-- **`insert_child` records a new block below an indexed parent.** -/
theorem insertChild_of_new (hnew : blockId ∉ keys) (hparent : ∀ p, parent blockId = some p → p ∈ keys) :
    ∃ next, insertChild (parent blockId) blockId tree = (.ok (), next) ∧
      Represents next parent (keys ++ [blockId]) := by
  have hnone := hrep.not_mem_keys_iff.mp hnew
  have hrest : ∀ i id, [blockId][i + 1]? = some id → parent id = [blockId][i]? := by simp
  have hfresh : ∀ id ∈ [blockId], id ∉ keys := by simpa using hnew
  cases hp : parent blockId with
  | none =>
      have hrootLive : tree.Live root := Or.inl rfl
      have hfree := children_get?_of_not_mem hrep hrootLive hnew
      refine ⟨addPath root blockId [] tree, ?_, ?_⟩
      · have hdiscard : tree.discardLeaf root = tree := by
          simp [discardLeaf, hrep.root_segment]
        simp [insertChild, hnone, hfree, addPath_nil, hdiscard, Routine.read, Routine.write,
          Routine.raiseIf, Bind.bind, Pure.pure]
      · exact (addPath_pathAdded hrep hrootLive (List.nodup_singleton _) hfresh).represents hrep
          hrootLive hfresh (by rw [hp, hrep.root_segment]; rfl) hrest
  | some parentId =>
      obtain ⟨node, index, hloc⟩ := (hrep.domain parentId).mp (hparent parentId hp)
      have hrep' := hrep.splitAfter hloc
      obtain ⟨hlive, hlast⟩ := splitAfter_last hrep hloc
      have hfree := children_get?_of_not_mem hrep' hlive hnew
      refine ⟨addPath node blockId [] (tree.splitAfter node index), ?_, ?_⟩
      · have hfree' : ((if ((tree.splitAfter node index).nodes node).children.entries = [] then
            (tree.splitAfter node index).discardLeaf node
            else tree.splitAfter node index).nodes node).children.get? blockId = none := by
          split
          · rw [discardLeaf_nodes]
            exact hfree
          · exact hfree
        simp [insertChild, hnone, hloc, hfree', addPath_nil, Routine.read, Routine.write,
          Routine.raiseIf, Bind.bind, Pure.pure]
      · exact (addPath_pathAdded hrep' hlive (List.nodup_singleton _) hfresh).represents hrep'
          hlive hfresh (by rw [hp, hlast]) hrest

end

/-! ## `insert` -/

omit [DecidableEq Id] in
theorem getElem?_drop_zero (l : List Id) (k : ℕ) : (l.drop k)[0]? = l[k]? := by
  rw [List.getElem?_drop, Nat.add_zero]

theorem commonLength_spec (ids segment : List Id) :
    commonLength ids segment ≤ ids.length ∧ commonLength ids segment ≤ segment.length ∧
      ids.take (commonLength ids segment) = segment.take (commonLength ids segment) ∧
      ∀ x, ids[commonLength ids segment]? = some x → segment[commonLength ids segment]? ≠ some x := by
  fun_induction commonLength ids segment with
  | case1 x ids segment ih =>
      obtain ⟨hle, hle', htake, hdiffer⟩ := ih
      exact ⟨by simp [hle], by simp [hle'], by simp [htake], by simpa using hdiffer⟩
  | case2 x ids y segment hne =>
      refine ⟨Nat.zero_le _, Nat.zero_le _, rfl, fun z hz => ?_⟩
      obtain rfl : x = z := by simpa using hz
      simpa [eq_comm] using hne
  | case3 ids segment hne =>
      refine ⟨Nat.zero_le _, Nat.zero_le _, rfl, fun z hz => ?_⟩
      cases ids with
      | nil => simp at hz
      | cons x ids =>
          cases segment with
          | nil => simp
          | cons y segment => exact absurd rfl (hne x ids y segment rfl)

section

variable (hrep : Represents tree parent keys)

include hrep

/-- Below a new block of a chain every block is new. -/
theorem chain_new (hrest : ∀ i x, path[i + 1]? = some x → parent x = path[i]?)
    (hhead : ∀ x, path[0]? = some x → x ∉ keys) : ∀ x ∈ path, x ∉ keys := by
  have hall : ∀ (i : ℕ) (x : Id), path[i]? = some x → x ∉ keys := by
    intro i
    induction i with
    | zero => exact hhead
    | succ i ih =>
        intro x hx hmem
        have hbound := (List.getElem?_eq_some_iff.mp hx).1
        obtain ⟨p, hp⟩ : ∃ p, path[i]? = some p := ⟨_, List.getElem?_eq_getElem (by omega)⟩
        exact ih p hp (hrep.parent_mem hmem ((hrest i x hx).trans hp))
  intro x hx
  obtain ⟨i, hi⟩ := List.getElem?_of_mem hx
  exact hall i x hi

/-- The loop of `insert`, on a path whose blocks are recorded below each
other. -/
theorem insertLoop_spec {fuel : ℕ} (hfuel : path.length < fuel) (hlive : tree.Live node) (hnodup : path.Nodup)
    (hhead : ∀ x, path[0]? = some x → parent x = (tree.nodes node).segment.getLast?)
    (hrest : ∀ i x, path[i + 1]? = some x → parent x = path[i]?) :
    ∃ next, insertLoop fuel node path tree = (.ok (), next) ∧
      Represents next parent (keys ++ path.filter fun x => x ∉ keys) := by
  induction fuel generalizing node path with
  | zero => omega
  | succ fuel ih =>
      cases path with
      | nil => exact ⟨tree, rfl, by simpa using hrep⟩
      | cons blockId rest =>
          cases hchild : (tree.nodes node).children.get? blockId with
          | none =>
              have hnew : ∀ x ∈ blockId :: rest, x ∉ keys := by
                apply chain_new hrep hrest
                intro x hx hmem
                obtain ⟨child, hget⟩ := (hrep.continue_iff hlive x).mp ⟨hmem, hhead x hx⟩
                obtain rfl : blockId = x := by simpa using hx
                rw [hchild] at hget
                cases hget
              refine ⟨addPath node blockId rest tree, ?_, ?_⟩
              · simp [insertLoop, hchild, Routine.read, Routine.write, Bind.bind]
              · rw [List.filter_eq_self.mpr fun x hx => by simpa using hnew x hx]
                exact (addPath_pathAdded hrep hlive hnodup hnew).represents hrep hlive hnew (hhead blockId rfl) hrest
          | some child =>
              obtain ⟨hloc, -⟩ := hrep.below node blockId child hlive hchild
              have hclive := Represents.live_of_located hloc
              have hsegHead := (hrep.located blockId child 0 hloc).2.2
              have hsegPos := hrep.index_lt hloc
              obtain ⟨hle, hle', htake, hdiffer⟩ :=
                commonLength_spec (blockId :: rest) (tree.nodes child).segment
              have hpos : 0 < commonLength (blockId :: rest) (tree.nodes child).segment := by
                rw [Nat.pos_iff_ne_zero]
                intro hzero
                rw [hzero] at hdiffer
                exact hdiffer blockId rfl hsegHead
              generalize hcommon : commonLength (blockId :: rest) (tree.nodes child).segment = common at *
              have hagree : ∀ i, i < common → (blockId :: rest)[i]? = (tree.nodes child).segment[i]? := by
                intro i hi
                rw [← List.getElem?_take_of_lt hi, htake, List.getElem?_take_of_lt hi]
              have hfilter : (blockId :: rest).filter (fun x => x ∉ keys) =
                  ((blockId :: rest).drop common).filter fun x => x ∉ keys := by
                conv_lhs => rw [← List.take_append_drop common (blockId :: rest)]
                rw [List.filter_append, htake, List.filter_eq_nil_iff.mpr, List.nil_append]
                intro x hx
                obtain ⟨j, hj⟩ := List.getElem?_of_mem (List.mem_of_mem_take hx)
                simpa using hrep.mem_keys (hrep.located_of_mem_segment hclive hj)
              have hnodup' : ((blockId :: rest).drop common).Nodup :=
                hnodup.sublist (List.drop_sublist _ _)
              have hrest' : ∀ i x, ((blockId :: rest).drop common)[i + 1]? = some x →
                  parent x = ((blockId :: rest).drop common)[i]? := by
                intro i x hx
                rw [List.getElem?_drop] at hx ⊢
                exact hrest _ x hx
              have hhead' : ∀ x, ((blockId :: rest).drop common)[0]? = some x →
                  parent x = (tree.nodes child).segment[common - 1]? := by
                intro x hx
                rw [getElem?_drop_zero] at hx
                obtain ⟨k, rfl⟩ : ∃ k, common = k + 1 := ⟨common - 1, by omega⟩
                rw [hrest k x hx, Nat.add_sub_cancel, hagree k (by omega)]
              rw [hfilter]
              by_cases hfull : common = (tree.nodes child).segment.length
              · -- the whole edge matches: go on below it
                have hdrop : ((blockId :: rest).drop common).length < fuel := by
                  rw [List.length_drop]
                  rw [List.length_cons] at hfuel ⊢
                  omega
                obtain ⟨next, hrun, hnext⟩ := ih hdrop hclive hnodup'
                  (fun x hx => by rw [hhead' x hx, List.getLast?_eq_getElem?, hfull]) hrest'
                refine ⟨next, ?_, hnext⟩
                rw [← hrun]
                simp [insertLoop, hchild, hcommon, hfull, Routine.read, Bind.bind]
              · have hlt : common < (tree.nodes child).segment.length := by omega
                have hnew : ∀ x ∈ (blockId :: rest).drop common, x ∉ keys := by
                  apply chain_new hrep hrest'
                  intro x hx hmem
                  -- inside the edge the only recorded child is the next block of the edge
                  have hparent := hhead' x hx
                  rw [getElem?_drop_zero] at hx
                  obtain ⟨p, hp⟩ : ∃ p, (tree.nodes child).segment[common - 1]? = some p :=
                    ⟨_, List.getElem?_eq_getElem (by omega)⟩
                  rcases (hrep.child_iff (hrep.located_of_mem_segment hclive hp) x).mp
                    ⟨hmem, hparent.trans hp⟩ with hseg | ⟨hend, -⟩
                  · rw [Nat.sub_add_cancel hpos] at hseg
                    exact hdiffer x hx hseg
                  · omega
                refine ⟨splitEdge node child common ((blockId :: rest).drop common) tree, ?_, ?_⟩
                · simp [insertLoop, hchild, hcommon, hfull, hpos.ne', Routine.read, Routine.write,
                    Routine.raiseIf, Bind.bind, Pure.pure]
                · rw [List.filter_eq_self.mpr fun x hx => by simpa using hnew x hx]
                  exact hrep.splitEdge hlive hchild hpos hlt hnodup' hnew hhead' hrest'

/-- **`insert` records the new blocks of a consistent path.** -/
theorem insert_spec (hnodup : path.Nodup) (hpath : ∀ i x, path[i]? = some x → parent x = (path.take i).getLast?) :
    ∃ next, insert path tree = (.ok (), next) ∧ Represents next parent (keys ++ path.filter fun x => x ∉ keys) := by
  apply insertLoop_spec hrep (Nat.lt_succ_self _) (Or.inl rfl) hnodup
  · intro x hx
    rw [hpath 0 x hx, hrep.root_segment, List.take_zero]
  · intro i x hx
    have hbound := (List.getElem?_eq_some_iff.mp hx).1
    rw [hpath (i + 1) x hx, List.getLast?_take, if_neg (by omega), Nat.add_sub_cancel,
      List.getElem?_eq_getElem (by omega)]
    rfl

end

/-! ## `remove_block` -/

section

variable (hrep : Represents tree parent keys)

include hrep

theorem removeBlock_of_missing (hmissing : blockId ∉ keys) :
    ∃ error, removeBlock blockId tree = (.error error, tree) := by
  simp [removeBlock, hrep.not_mem_keys_iff.mp hmissing, Routine.read, Routine.raise, Bind.bind]

theorem removeBlock_of_child {child : Id} (hmem : blockId ∈ keys) (hchild : child ∈ keys)
    (hparent : parent child = some blockId) :
    ∃ error, removeBlock blockId tree = (.error error, tree) := by
  obtain ⟨n, i, hloc⟩ := (hrep.domain blockId).mp hmem
  have hcond : i + 1 ≠ (tree.nodes n).segment.length ∨ (tree.nodes n).children.entries ≠ [] := by
    rcases (hrep.child_iff hloc child).mp ⟨hchild, hparent⟩ with hnext | ⟨-, c, hget⟩
    · have := (List.getElem?_eq_some_iff.mp hnext).1
      exact Or.inl (by omega)
    · exact Or.inr (Dict.entries_ne_nil_of_get? hget)
  simp only [removeBlock, hloc, Routine.read, Bind.bind, Routine.raiseIf, if_pos hcond]
  exact ⟨_, rfl⟩

/-- **`remove_block` removes a childless block.** -/
theorem removeBlock_of_childless (hmem : blockId ∈ keys) (hnone : ∀ c ∈ keys, parent c ≠ some blockId) :
    ∃ next, removeBlock blockId tree = (.ok (), next) ∧
      Represents next parent (keys.filter fun q => q ≠ blockId) := by
  obtain ⟨n, i, hloc, hlast, hchildless⟩ :=
    (hrep.leaves blockId).mp ((hrep.mem_leaves_iff blockId).mpr ⟨hmem, hnone⟩)
  obtain ⟨head, -, hhead⟩ := hrep.exists_head (Represents.live_of_located hloc) (hrep.located blockId n i hloc).1
  obtain ⟨above, habove, -, -⟩ := hrep.above head n hhead
  refine ⟨dropBlock blockId n above tree, ?_, dropBlock_represents hrep ⟨hloc, hlast, hchildless, habove⟩⟩
  simp [removeBlock, hloc, hlast, hchildless, habove, Routine.read, Routine.write, Routine.raiseIf,
    Bind.bind, Pure.pure]

end

end RadixTreeBackend

/-! ## The recorded forest -/

open Forest

/-- The recorded (parent, block) pairs: a block's parent, if it has one, was
recorded before it. -/
structure BlockForest (Id : Type) [DecidableEq Id] where
  pairs : Dict Id (Option Id)
  parents_first : ParentsFirst (fun id => (pairs.get? id).join) pairs.keys

namespace BlockForest

variable {Id : Type} [DecidableEq Id]

/-- The recorded blocks, in the order in which they were recorded. -/
def keys (forest : BlockForest Id) : List Id := forest.pairs.keys

/-- The recorded parent of a block. -/
def parent (forest : BlockForest Id) (id : Id) : Option Id := (forest.pairs.get? id).join

/-- Nothing recorded. -/
def empty : BlockForest Id := ⟨Dict.empty, parentsFirst_nil⟩

theorem keys_nodup (forest : BlockForest Id) : forest.keys.Nodup := forest.pairs.keys_nodup

variable {id : Id} {p : Option Id}

theorem parent_of_get? {forest : BlockForest Id} (h : forest.pairs.get? id = some p) :
    forest.parent id = p := by
  rw [parent, h]
  rfl

/-- Record a block below a parent.  A block that is recorded already, or whose
parent is not, is not recorded. -/
def record (forest : BlockForest Id) (p : Option Id) (id : Id) : BlockForest Id :=
  if h : id ∉ forest.keys ∧ ∀ q ∈ p, q ∈ forest.keys then
    { pairs := forest.pairs.set id p
      parents_first := by
        rw [Dict.keys_set_of_not_mem p h.1]
        apply ParentsFirst.append
        · refine forest.parents_first.congr fun x hx => ?_
          rw [Dict.get?_set_of_ne]
          rintro rfl
          exact h.1 hx
        · intro q hq
          simp only [Dict.get?_set, if_true, Option.join_some] at hq
          exact h.2 q hq }
  else forest

/-- Record a path below `p`. -/
def recordPath (forest : BlockForest Id) : Option Id → List Id → BlockForest Id
  | _, [] => forest
  | p, id :: rest => recordPath (forest.record p id) (some id) rest

/-- Take a childless block away. -/
def remove (forest : BlockForest Id) (id : Id) : BlockForest Id :=
  if h : ∀ c ∈ forest.keys, forest.parent c ≠ some id then
    { pairs := forest.pairs.erase id
      parents_first := by
        rw [Dict.keys_erase]
        refine (forest.parents_first.filter ?_).congr ?_
        · intro x hx _ p hp
          have hne : p ≠ id := by
            rintro rfl
            exact h x hx hp
          simpa using hne
        · intro x hx
          have hne : x ≠ id := by simpa using (List.mem_filter.mp hx).2
          rw [Dict.get?_erase, if_neg hne] }
  else forest

theorem record_of_new {forest : BlockForest Id} (hnew : id ∉ forest.keys) (hp : ∀ q ∈ p, q ∈ forest.keys) :
    (forest.record p id).keys = forest.keys ++ [id] ∧
      (forest.record p id).parent = Function.update forest.parent id p := by
  have h : id ∉ forest.keys ∧ ∀ q ∈ p, q ∈ forest.keys := ⟨hnew, hp⟩
  simp only [record, dif_pos h]
  refine ⟨Dict.keys_set_of_not_mem p hnew, ?_⟩
  funext x
  simp only [parent, Dict.get?_set, Function.update_apply]
  split <;> rfl

theorem record_of_not {forest : BlockForest Id}
    (h : ¬ (id ∉ forest.keys ∧ ∀ q ∈ p, q ∈ forest.keys)) : forest.record p id = forest := by
  simp only [record, dif_neg h]

theorem remove_of_childless {forest : BlockForest Id} (h : ∀ c ∈ forest.keys, forest.parent c ≠ some id) :
    (forest.remove id).keys = (forest.keys.filter fun q => q ≠ id) ∧
      ∀ x ≠ id, (forest.remove id).parent x = forest.parent x := by
  simp only [remove, dif_pos h]
  refine ⟨Dict.keys_erase _ _, fun x hx => ?_⟩
  simp [parent, hx]

/-- Recording a path: its new blocks come at the end, each below the one before
it. -/
theorem recordPath_spec {forest : BlockForest Id} {p : Option Id} {path : List Id}
    (hp : ∀ q ∈ p, q ∈ forest.keys) (hnodup : path.Nodup)
    (hconsistent : ∀ (i : ℕ) x, path[i]? = some x → x ∈ forest.keys →
      forest.parent x = (p :: path.map some)[i]?.join) :
    (forest.recordPath p path).keys = forest.keys ++ path.filter (fun x => x ∉ forest.keys) ∧
      (∀ (i : ℕ) x, path[i]? = some x → (forest.recordPath p path).parent x = (p :: path.map some)[i]?.join) ∧
      ∀ x, x ∉ path → (forest.recordPath p path).parent x = forest.parent x := by
  induction path generalizing forest p with
  | nil => simp [recordPath]
  | cons id rest ih =>
      rw [List.nodup_cons] at hnodup
      -- one step adds its block, unless the forest has it already with this parent:
      have hafter : ∃ next, next = forest.record p id ∧
          next.keys = forest.keys ++ [id].filter (fun x => x ∉ forest.keys) ∧
          next.parent id = p ∧ ∀ x, x ≠ id → next.parent x = forest.parent x := by
        refine ⟨_, rfl, ?_⟩
        by_cases hmem : id ∈ forest.keys
        · rw [record_of_not fun h => h.1 hmem]
          exact ⟨by simp [hmem], by simpa using hconsistent 0 id rfl hmem, fun _ _ => rfl⟩
        · obtain ⟨hkeys, hparent⟩ := record_of_new hmem hp
          rw [hkeys, hparent]
          exact ⟨by simp [hmem], by simp, fun x hx => by simp [hx]⟩
      obtain ⟨next, hnext, hkeys, hid, hother⟩ := hafter
      have hmemNext : ∀ x, x ∈ next.keys ↔ x = id ∨ x ∈ forest.keys := by
        intro x
        rw [hkeys]
        by_cases hmem : id ∈ forest.keys
        · simp only [List.mem_append, List.mem_filter, List.mem_singleton, decide_eq_true_eq]
          constructor
          · rintro (h | ⟨h, -⟩)
            exacts [Or.inr h, Or.inl h]
          · rintro (rfl | h)
            exacts [Or.inl hmem, Or.inl h]
        · simp [hmem, or_comm]
      obtain ⟨ihkeys, ihpath, ihother⟩ := @ih next (some id)
        (by simp [hmemNext]) hnodup.2 (by
          intro i x hx hmem
          have hne : x ≠ id := by
            rintro rfl
            exact hnodup.1 (List.mem_of_getElem? hx)
          rw [hother x hne]
          have hold : x ∈ forest.keys := by
            rcases (hmemNext x).mp hmem with h | h
            exacts [absurd h hne, h]
          simpa using hconsistent (i + 1) x (by simpa using hx) hold)
      rw [recordPath, ← hnext]
      refine ⟨?_, ?_, ?_⟩
      · rw [ihkeys, hkeys, List.append_assoc]
        congr 1
        rw [← List.singleton_append (l := rest), List.filter_append]
        congr 1
        apply List.filter_congr
        intro x hx
        have hne : x ≠ id := by
          rintro rfl
          exact hnodup.1 hx
        simp [hne]
      · intro i x hx
        cases i with
        | zero =>
            obtain rfl : id = x := by simpa using hx
            rw [ihother id hnodup.1, hid]
            rfl
        | succ i =>
            have := ihpath i x (by simpa using hx)
            simpa using this
      · intro x hx
        rw [List.mem_cons, not_or] at hx
        rw [ihother x hx.2, hother x hx.1]

end BlockForest

/-! ## Runs -/

/-- A call of one of the three mutating methods. -/
inductive TreeOp (Id : Type) where
  | insertChild (parentBlockId : Option Id) (blockId : Id)
  | insert (blockIds : List Id)
  | removeBlock (blockId : Id)

namespace TreeOp

open Routine RadixTreeBackend

variable {Id : Type} [DecidableEq Id]

/-- The call on the compressed tree. -/
def perform : TreeOp Id → Routine (RadixTreeBackend Id) Unit
  | insertChild parentBlockId blockId => RadixTreeBackend.insertChild parentBlockId blockId
  | insert blockIds => RadixTreeBackend.insert blockIds
  | removeBlock blockId => RadixTreeBackend.removeBlock blockId

/-- The same call on the recorded pairs. -/
def record : TreeOp Id → BlockForest Id → BlockForest Id
  | insertChild parentBlockId blockId, forest => forest.record parentBlockId blockId
  | insert blockIds, forest => forest.recordPath none blockIds
  | removeBlock blockId, forest => forest.remove blockId

/-- An inserted path is consistent when its ids are distinct and an id that is
recorded already stands below its recorded parent. -/
def Consistent : TreeOp Id → BlockForest Id → Prop
  | insertChild parentBlockId blockId, forest =>
      ∀ p, forest.pairs.get? blockId = some p → parentBlockId = p
  | insert blockIds, forest => blockIds.Nodup ∧ ∀ (i : ℕ) id, blockIds[i]? = some id →
      ∀ p, forest.pairs.get? id = some p → (blockIds.take i).getLast? = p
  | removeBlock _, _ => True

/-- The tree after a run of calls.  A call that raises keeps what it has
written. -/
def runTree : List (TreeOp Id) → RadixTreeBackend Id → RadixTreeBackend Id
  | [], tree => tree
  | op :: ops, tree => runTree ops (op.perform.after tree)

/-- The recorded pairs after a run of calls. -/
def runForest : List (TreeOp Id) → BlockForest Id → BlockForest Id
  | [], forest => forest
  | op :: ops, forest => runForest ops (op.record forest)

/-- Every call of the run is consistent with what is recorded when it is
made. -/
def ConsistentRun : List (TreeOp Id) → BlockForest Id → Prop
  | [], _ => True
  | op :: ops, forest => op.Consistent forest ∧ ConsistentRun ops (op.record forest)

variable {tree : RadixTreeBackend Id} {forest : BlockForest Id}

section

variable (hrep : Represents tree forest.parent forest.keys)

include hrep

theorem insertChild_step (p : Option Id) (id : Id) :
    Represents ((insertChild p id).perform.after tree) (forest.record p id).parent (forest.record p id).keys := by
  by_cases hmem : id ∈ forest.keys
  · rw [BlockForest.record_of_not fun h => h.1 hmem]
    simpa [perform, Routine.after, insertChild_of_mem hrep hmem] using hrep
  by_cases hp : ∀ q ∈ p, q ∈ forest.keys
  · obtain ⟨hkeys, hparent⟩ := BlockForest.record_of_new hmem hp
    have hrep' : Represents tree (Function.update forest.parent id p) forest.keys := by
      refine hrep.congr_parent fun x hx => ?_
      rw [Function.update_of_ne]
      rintro rfl
      exact hmem hx
    obtain ⟨next, hrun, hnext⟩ := insertChild_of_new hrep' hmem (by simpa using hp)
    rw [Function.update_self] at hrun
    rw [hkeys, hparent]
    simpa [perform, Routine.after, hrun] using hnext
  · rw [BlockForest.record_of_not fun h => hp h.2]
    simp only [not_forall] at hp
    obtain ⟨q, hq, hmissing⟩ := hp
    obtain rfl : p = some q := hq
    obtain ⟨error, hrun⟩ := insertChild_of_missing hrep hmem hmissing
    simpa [perform, Routine.after, hrun] using hrep

theorem insert_step {path : List Id} (hconsistent : (insert path).Consistent forest) :
    Represents ((insert path).perform.after tree) (forest.recordPath none path).parent
      (forest.recordPath none path).keys := by
  obtain ⟨hnodup, hbelow⟩ := hconsistent
  have hprevious : ∀ (i : ℕ) x, path[i]? = some x → (none :: path.map some)[i]?.join = (path.take i).getLast? := by
    intro i x hx
    have hbound := (List.getElem?_eq_some_iff.mp hx).1
    cases i with
    | zero => rfl
    | succ i =>
        rw [List.getLast?_take, if_neg (by omega), List.getElem?_cons_succ, Nat.add_sub_cancel,
          List.getElem?_map, List.getElem?_eq_getElem (by omega)]
        rfl
  have hrecorded : ∀ (i : ℕ) x, path[i]? = some x → x ∈ forest.keys →
      forest.parent x = (none :: path.map some)[i]?.join := by
    intro i x hx hmem
    obtain ⟨p, hp⟩ := Dict.mem_keys_iff.mp hmem
    rw [BlockForest.parent_of_get? hp, hprevious i x hx, hbelow i x hx p hp]
  obtain ⟨hkeys, hpath, hother⟩ := BlockForest.recordPath_spec (by simp) hnodup hrecorded
  have hrep' : Represents tree (forest.recordPath none path).parent forest.keys := by
    refine hrep.congr_parent fun x hx => ?_
    by_cases hmem : x ∈ path
    · obtain ⟨i, hi⟩ := List.getElem?_of_mem hmem
      rw [hpath i x hi, hrecorded i x hi hx]
    · exact hother x hmem
  obtain ⟨next, hrun, hnext⟩ := insert_spec hrep' hnodup fun i x hx => by
    rw [hpath i x hx, hprevious i x hx]
  rw [hkeys]
  simpa [perform, Routine.after, hrun] using hnext

theorem removeBlock_step (id : Id) :
    Represents ((removeBlock id).perform.after tree) (forest.remove id).parent (forest.remove id).keys := by
  by_cases hchildless : ∀ c ∈ forest.keys, forest.parent c ≠ some id
  · obtain ⟨hkeys, hparent⟩ := BlockForest.remove_of_childless hchildless
    have hagree : ∀ x ∈ (forest.keys.filter fun q => q ≠ id), (forest.remove id).parent x = forest.parent x := by
      intro x hx
      exact hparent x (by simpa using (List.mem_filter.mp hx).2)
    rw [hkeys]
    by_cases hmem : id ∈ forest.keys
    · obtain ⟨next, hrun, hnext⟩ := removeBlock_of_childless hrep hmem hchildless
      simpa [perform, Routine.after, hrun] using hnext.congr_parent hagree
    · obtain ⟨error, hrun⟩ := removeBlock_of_missing hrep hmem
      have hsame : (forest.keys.filter fun q => q ≠ id) = forest.keys := by
        rw [List.filter_eq_self]
        intro q hq
        have hne : q ≠ id := by
          rintro rfl
          exact hmem hq
        simpa using hne
      rw [hsame] at hagree ⊢
      simpa [perform, Routine.after, hrun] using hrep.congr_parent hagree
  · have hremove : forest.remove id = forest := by
      simp only [BlockForest.remove, dif_neg hchildless]
    rw [hremove]
    simp only [not_forall, not_not] at hchildless
    obtain ⟨c, hc, hparent⟩ := hchildless
    have hmem : id ∈ forest.keys := forest.parents_first.parent_mem hc hparent
    obtain ⟨error, hrun⟩ := removeBlock_of_child hrep hmem hc hparent
    simpa [perform, Routine.after, hrun] using hrep

end

/-- One call keeps the tree in step with the recorded pairs. -/
theorem step (op : TreeOp Id) (hrep : Represents tree forest.parent forest.keys) (hop : op.Consistent forest) :
    Represents (op.perform.after tree) (op.record forest).parent (op.record forest).keys := by
  cases op with
  | insertChild p id => exact insertChild_step hrep p id
  | insert path => exact insert_step hrep hop
  | removeBlock id => exact removeBlock_step hrep id

/-- So does a run of calls. -/
theorem run (ops : List (TreeOp Id)) (hrep : Represents tree forest.parent forest.keys)
    (hops : ConsistentRun ops forest) :
    Represents (runTree ops tree) (runForest ops forest).parent (runForest ops forest).keys := by
  induction ops generalizing tree forest with
  | nil => exact hrep
  | cons op rest ih => exact ih (op.step hrep hops.1) hops.2

/-- **The compressed tree represents the recorded forest.** After every run of
consistent calls from an empty backend, each query answers as the forest of the
recorded pairs does. -/
theorem queries_agree_with_forest (ops : List (TreeOp Id))
    (hops : ConsistentRun ops BlockForest.empty) :
    let tree := runTree ops RadixTreeBackend.init
    let forest := runForest ops BlockForest.empty
    (∀ b ∈ forest.keys, ∃ path, tree.pathToBlock b = .ok path ∧
      IsRootPath forest.parent forest.keys path ∧ path.getLast? = some b) ∧
    (∀ b ∈ forest.keys, ∃ children, tree.childBlockIds b = .ok children ∧ children.Nodup ∧
      tree.childCount b = .ok children.length ∧
      ∀ c, c ∈ children ↔ c ∈ forest.keys ∧ forest.parent c = some b) ∧
    (∀ b, b ∈ tree.leafBlockIds ↔
      b ∈ forest.keys ∧ ∀ c ∈ forest.keys, forest.parent c ≠ some b) ∧
    (∀ b ∈ forest.keys, ∃ ids, tree.subtreeBlockIds b = .ok ids ∧ ids.Nodup ∧
      ∀ d, d ∈ ids ↔ Descends forest.parent forest.keys d b) ∧
    (∀ ids maxBlocks,
      let result := tree.lookup ids maxBlocks
      result.hitBlockCount ≤ (ids.take maxBlocks.toNat).length ∧
      IsRootPath forest.parent forest.keys (ids.take result.hitBlockCount) ∧
      (∀ k, k ≤ (ids.take maxBlocks.toNat).length →
        IsRootPath forest.parent forest.keys (ids.take k) → k ≤ result.hitBlockCount) ∧
      result.lastBlockId = (ids.take result.hitBlockCount).getLast?) := by
  intro tree forest
  have hrep : Represents tree forest.parent forest.keys :=
    run ops (represents_init _) hops
  exact ⟨fun b hb => hrep.pathToBlock_eq forest.parents_first forest.keys_nodup hb,
    fun b hb => hrep.childBlockIds_eq hb, hrep.mem_leaves_iff,
    fun b hb => hrep.subtreeBlockIds_eq forest.parents_first forest.keys_nodup hb,
    hrep.lookup_eq⟩

/-- A run with a bulk insert, an insert in the middle of an edge, a tail removal
and a bulk insert that forks off an edge. -/
theorem queries_agree_on_mixed_run :
    let ops : List (TreeOp ℕ) := [insert [1, 2, 3], insertChild (some 2) 4, removeBlock 3,
      removeBlock 1, insert [1, 2, 5]]
    ConsistentRun ops BlockForest.empty ∧
      (runTree ops RadixTreeBackend.init).lookup [1, 2, 4] 3 = ⟨3, some 4⟩ ∧
      ∀ b, b ∈ (runTree ops RadixTreeBackend.init).leafBlockIds ↔
        b ∈ (runForest ops BlockForest.empty).keys ∧
          ∀ c ∈ (runForest ops BlockForest.empty).keys,
            (runForest ops BlockForest.empty).parent c ≠ some b := by
  intro ops
  have hops : ConsistentRun ops BlockForest.empty := by
    refine ⟨⟨by decide, ?_⟩, ?_, trivial, trivial, ⟨by decide, ?_⟩, trivial⟩
    · intro i id _ p hp
      cases hp
    · intro p hp
      cases hp
    · intro i id hid p hp
      match i with
      | 0 | 1 | 2 =>
          cases hid
          cases hp
          try rfl
      | i + 3 => cases hid
  exact ⟨hops, by decide, (queries_agree_with_forest ops hops).2.2.1⟩

end TreeOp
