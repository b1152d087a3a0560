import Stencil.Proofs.BlockUse
import Stencil.Proofs.Loading

/-!
# The blocks of a compiled unit

A unit lists the root of its template and then one entry point for each block. The order is that in
which the names of blocks first occur anywhere in the tree (`Node.blockNames`), and the entry point
is the function of the last block of the name (`Node.lastBlock?`). The names are recovered from the
keys of the unit, and the code of the template refers to no other blocks
(`loadUnit_lists_blocks`).

Blocks are listed by the texts of their names. Two names that are different constants with one text
share an entry point (`loadUnit_merges_numbered_block`).
-/

namespace Stencil

open Script Compile List

/-- The names of the blocks anywhere in a tree, each at its first occurrence. -/
def Node.blockNames (tree : Node) : List String :=
  (tree.blocks.filterMap (·.1.textName?)).eraseDups

/-- The body of the last block of a name in a tree. -/
def Node.lastBlock? (tree : Node) (b : String) : Option Node :=
  (tree.blocks.filter (·.1.textName? = some b)).getLast?.map (·.2)

theorem Node.keys_definitions (tree : Node) : tree.definitions.keys = tree.blockNames := by
  unfold definitions blockNames
  rw [Table.keys_ofList, map_filterMap]
  congr 2
  funext d
  rw [Option.map_map]
  exact Option.map_id_fun'.symm ▸ rfl

theorem Node.find?_definitions (tree : Node) (b : String) :
    tree.definitions.find? b = tree.lastBlock? b := by
  unfold definitions lastBlock?
  rw [Table.find?_ofList, ← filterMap_reverse, getLast?_eq_head?_reverse, ← filter_reverse]
  -- Seen from the end of the tree, both sides take the first block of the name.
  induction tree.blocks.reverse with
  | nil => rfl
  | cons d rest ih =>
    cases hname : d.1.textName? with
    | none =>
      rw [filterMap_cons_none (by rw [hname]; rfl), ih]
      simp [hname]
    | some name =>
      rw [filterMap_cons_some (by rw [hname]; rfl), Table.findIn]
      by_cases heq : name = b
      · simp [hname, heq]
      · rw [if_neg heq, ih]
        simp [hname, heq]

/-- A compiled tree in which blocks are named by texts loads as a unit with its root and its blocks,
in the order in which their names first occur. The entry point of a block is the function of the
last block of its name, the names of the blocks are recovered from the keys, and every function of
the module refers to blocks of the unit only. -/
theorem loadUnit_lists_blocks {tree : Node} {name? file? : Option String} {m : Script.Module}
    {c : Compiler} (hcompile : ({} : Compiler).compile tree false name? file? = (.ok m, c))
    (hnames : tree.BlocksNamed) (w : World) :
    ∃ (unit : CompiledUnit Value) (u : World) (entry : String → Value),
      (Eval.loadUnit tree name? file?).outcome w = (.ok unit, u) ∧
      unit.entries.entries = ("root", .function w.functions.size) ::
        tree.blockNames.map (fun b => (CompiledUnit.blockKey b, entry b)) ∧
      ({ name?, file?, unit } : Template).blocks.entries =
        tree.blockNames.map (fun b => (b, entry b)) ∧
      (∃ pos items f p, tree = .root pos items ∧ Gives (rootFunction items) {} f p ∧
        u.functions.get? w.functions.size = some (.closure (f.closure w.activations.size))) ∧
      (∀ b ∈ tree.blockNames, ∃ body f p p' q, tree.lastBlock? b = some body ∧
        Gives (blockFunction (.constant (.str b)) body) p f p' ∧ entry b = .function q ∧
        u.functions.get? q = some (.closure (f.closure w.activations.size))) ∧
      ∀ f ∈ m.functions, Refers (· ∈ tree.blockNames) (ownedBy f.params f.body) f.body := by
  have hgives := gives_of_compileModule (Compiler.compileModule_of_compile hcompile)
  obtain ⟨hfunctions, htexts⟩ := Functions.of_gives hgives hnames
  obtain ⟨entry, hunit, hentry⟩ := hfunctions.ofFunctions_eq_ok w.functions.size
  obtain ⟨message, houtcome⟩ := Eval.outcome_loadUnit hcompile
    ((congrArg (CompiledUnit.ofFunctions _) htexts).trans hunit)
  have hkeys : tree.definitions.keys.Nodup := Table.nodup_keys_ofList _
  have hlisted := CompiledUnit.entries_listed (Value.function w.functions.size) entry hkeys
  have hblocks := CompiledUnit.blocks_listed (Value.function w.functions.size) entry hkeys
  have hrefers := hfunctions.refers hnames
  rw [tree.keys_definitions] at houtcome hentry hlisted hblocks hrefers
  refine ⟨_, _, entry, houtcome, hlisted, hblocks, ?_, fun b hb => ?_, fun f hf => (hrefers f hf).2⟩
  · obtain ⟨pos, items, f, p, htree, hroot, hzero⟩ := hfunctions.root
    exact ⟨pos, items, f, p, htree, hroot, World.get?_place 0 f hzero⟩
  · obtain ⟨i, f, hf, hname, heq⟩ := hentry b hb
    obtain ⟨body, p, p', hbody, hgives, -⟩ := hfunctions.block hf hname
    rw [tree.find?_definitions] at hbody
    exact ⟨body, f, p, p', _, hbody, hgives, heq, World.get?_place i f hf⟩

/-- Of two blocks of one name, in a loop and in a macro, the first gives the place and the last the
function. -/
theorem loadUnit_lists_nested_blocks :
    let tree : Node := .root {} [
      .loop {} (.symbol {} "x") (.array {} []) (.block {} (.symbol {} "a")
        (.block {} (.symbol {} "b") (.text {} "inner"))),
      .macroDef {} (.symbol {} "m") [] (.block {} (.symbol {} "a") (.text {} "last")),
      .block {} (.symbol {} "c") (.text {} "end")]
    ∃ (unit : CompiledUnit Value) (u : World) (q : Ref) (f : Script.Function) (p p' : Progress),
      (Eval.loadUnit tree none none).outcome {} = (.ok unit, u) ∧
      unit.entries.keys = ["root", "block_a", "block_b", "block_c"] ∧
      unit.blocks.keys = ["a", "b", "c"] ∧ unit.blocks.find? "a" = some (.function q) ∧
      Gives (blockFunction (.constant (.str "a")) (.text {} "last")) p f p' ∧
      u.functions.get? q = some (.closure (f.closure 0)) := by
  intro tree
  have hok : (({} : Compiler).compile tree false none none).1.isOk = true := by decide +kernel
  have hnamed : tree.BlocksNamed := by decide
  have hnames : tree.blockNames = ["a", "b", "c"] := by decide
  rcases hcompile : ({} : Compiler).compile tree false none none with ⟨e | m, c⟩
  · rw [hcompile] at hok
    cases hok
  · obtain ⟨unit, u, entry, houtcome, hunit, hblocks, -, hentry, -⟩ :=
      loadUnit_lists_blocks hcompile hnamed {}
    rw [hnames] at hunit hblocks hentry
    obtain ⟨body, f, p, p', q, hbody, hgives, ha, hq⟩ := hentry "a" List.mem_cons_self
    obtain rfl : Node.text {} "last" = body := Option.some.inj hbody
    refine ⟨unit, u, q, f, p, p', houtcome, ?_, ?_, ?_, hgives, hq⟩
    · rw [Table.keys, hunit]
      rfl
    · exact (congrArg (List.map (·.1)) hblocks).trans rfl
    · exact (congrArg (Table.findIn "a") hblocks).trans (congrArg some ha)

/-- A number and its text are different names, but the blocks share one place in the unit, and one
name is recovered. -/
theorem loadUnit_merges_numbered_block :
    let tree : Node := .root {} [.block {} (.literal {} (.int 1)) (.text {} "x"),
      .block {} (.symbol {} "1") (.text {} "y")]
    tree.blocks.map (·.1.content?) = [some (.constant (.int 1)), some (.constant (.str "1"))] ∧
      (match ((Eval.loadUnit tree none none).outcome {}).1 with
        | .ok unit => some (unit.entries.keys, unit.blocks.keys)
        | .error _ => none) = some (["root", "block_1"], ["1"]) := by
  refine ⟨rfl, ?_⟩
  decide +kernel

end Stencil
