import Stencil.Proofs.Loading
import Stencil.Proofs.Instruction

/-!
# Templates made of text and inclusions

Templates that consist of text and of inclusions of one another form a graph, which may have cycles
(`IncludeGraph`). The render of such a template gives its full expansion if no path of inclusions is
longer than the limit, and otherwise ends at the first path in document order that is one step too
long. `expandWithin` computes which of the two happens, and the engine is compared with it level by
level.
-/

namespace Stencil

open Script Compile Engine Eval List Store

/-- A piece of a template: a text, or the inclusion of the template with a name. -/
inductive Piece where
  | text (s : String)
  | inclusion (name : String)
  deriving DecidableEq

/-- The name of the template that a piece includes. -/
def Piece.target? : Piece → Option String
  | .text _ => none
  | .inclusion name => some name

/-- The names of the templates that pieces include, in document order. -/
def targets (ps : List Piece) : List String :=
  ps.filterMap Piece.target?

namespace Node

/-- The text that a node is. -/
def textPiece? : Node → Option Piece
  | text _ s => some (.text s)
  | _ => none

/-- The pieces that a statement of a template stands for: text as it is or as output, or an
inclusion by a literal name. -/
def pieces? : Node → Option (List Piece)
  | text _ s => some [.text s]
  | output _ items => items.mapM textPiece?
  | inclusion _ (literal _ (.str name)) => some [.inclusion name]
  | _ => none

/-- The pieces that statements stand for. -/
def piecesIn? : List Node → Option (List Piece)
  | [] => some []
  | n :: rest => do return (← n.pieces?) ++ (← piecesIn? rest)

end Node

/-! ## Expansion and paths of inclusions -/

section Expansion

variable (pieces : String → List Piece)

/-- The full expansion of pieces: every inclusion is replaced by the expansion of what it
includes. -/
inductive Expands : List Piece → String → Prop where
  | nil : Expands [] ""
  | text {s t rest} : Expands rest t → Expands (.text s :: rest) (s ++ t)
  | inclusion {name s t rest} :
    Expands (pieces name) s → Expands rest t → Expands (.inclusion name :: rest) (s ++ t)

/-- A path of inclusions from a template: each template includes the next one. -/
inductive IncludePath : String → List String → Prop where
  | here (name : String) : IncludePath name [name]
  | step {name target path} :
    target ∈ targets (pieces name) → IncludePath target path → IncludePath name (name :: path)

/-- The paths with the given number of inclusions from a template, in document order. -/
def pathsFrom : Nat → String → List (List String)
  | 0, name => [[name]]
  | n + 1, name =>
    (targets (pieces name)).flatMap fun target => (pathsFrom n target).map (name :: ·)

/-- Expand pieces with a given way to expand what they include; the first inclusion that cannot be
expanded ends it. -/
def expandAll (next : String → Except (List String) String) :
    List Piece → Except (List String) String
  | [] => .ok ""
  | .text s :: rest => do return s ++ (← expandAll next rest)
  | .inclusion name :: rest => do return (← next name) ++ (← expandAll next rest)

/-- The expansion of a template with inclusions nested at most `n` deep, or the path to the first
inclusion that is nested deeper. -/
def expandWithin : Nat → String → Except (List String) String
  | 0, name => expandAll (fun target => .error [name, target]) (pieces name)
  | n + 1, name =>
    expandAll (fun target => (expandWithin n target).mapError (name :: ·)) (pieces name)

/-- What an attempt to expand pieces settles, given the paths that are too long: the expansion, and
that there is no such path, or else the first of these paths. -/
def Decides (ps : List Piece) (long : List (List String)) : Except (List String) String → Prop
  | .ok s => Expands pieces ps s ∧ long = []
  | .error path => long.head? = some path

variable {pieces}

/-- The listed paths are the paths of that length. -/
theorem mem_pathsFrom_iff {n name path} :
    path ∈ pathsFrom pieces n name ↔ IncludePath pieces name path ∧ path.length = n + 1 := by
  induction n generalizing name path with
  | zero =>
    rw [pathsFrom, mem_singleton]
    constructor
    · rintro rfl
      exact ⟨.here name, rfl⟩
    · rintro ⟨hpath, hlength⟩
      cases hpath with
      | here => rfl
      | step _ hrest => cases hrest <;> cases hlength
  | succ n ih =>
    simp only [pathsFrom, mem_flatMap, mem_map]
    constructor
    · rintro ⟨target, htarget, rest, hrest, rfl⟩
      obtain ⟨hpath, hlength⟩ := ih.1 hrest
      exact ⟨.step htarget hpath, by rw [length_cons, hlength]⟩
    · rintro ⟨hpath, hlength⟩
      cases hpath with
      | here => cases hlength
      | step htarget hrest =>
        exact ⟨_, htarget, _, ih.2 ⟨hrest, Nat.succ.inj hlength⟩, rfl⟩

theorem IncludePath.take {name path} (h : IncludePath pieces name path) (n : Nat) :
    IncludePath pieces name (path.take (n + 1)) := by
  induction h generalizing n with
  | here name =>
    rw [take_of_length_le (Nat.succ_le_succ (Nat.zero_le n))]
    exact .here name
  | @step name target path htarget hrest ih =>
    cases n with
    | zero => exact .here name
    | succ n => exact .step htarget (ih n)

/-- There is no path of a given length just if all paths are shorter. -/
theorem pathsFrom_eq_nil_iff {n name} :
    pathsFrom pieces n name = [] ↔ ∀ path, IncludePath pieces name path → path.length ≤ n := by
  constructor
  · intro h path hpath
    refine Nat.le_of_not_lt fun hlong => ?_
    have hmem : path.take (n + 1) ∈ pathsFrom pieces n name := by
      refine mem_pathsFrom_iff.2 ⟨hpath.take n, ?_⟩
      rw [length_take]
      omega
    rw [h] at hmem
    cases hmem
  · intro h
    refine eq_nil_iff_forall_not_mem.2 fun path hpath => ?_
    obtain ⟨hpath, hlength⟩ := mem_pathsFrom_iff.1 hpath
    have := h path hpath
    omega

/-- Pieces are decided if all that they include is. -/
theorem decides_expandAll {next long}
    (h : ∀ name, Decides pieces (pieces name) (long name) (next name)) (ps : List Piece) :
    Decides pieces ps ((targets ps).flatMap long) (expandAll next ps) := by
  induction ps with
  | nil => exact ⟨.nil, rfl⟩
  | cons p rest ih =>
    cases p with
    | text s =>
      show Decides pieces _ ((targets rest).flatMap long)
        (expandAll next rest >>= fun t => pure (s ++ t))
      cases hrest : expandAll next rest with
      | error path =>
        rw [hrest] at ih
        exact ih
      | ok t =>
        rw [hrest] at ih
        exact ⟨.text ih.1, ih.2⟩
    | inclusion name =>
      show Decides pieces _ (long name ++ (targets rest).flatMap long)
        (next name >>= fun s => expandAll next rest >>= fun t => pure (s ++ t))
      have hname := h name
      cases hnext : next name with
      | error path =>
        rw [hnext] at hname
        show (long name ++ _).head? = some path
        rw [head?_append, hname]
        rfl
      | ok s =>
        rw [hnext] at hname
        obtain ⟨hexpands, hlong⟩ := hname
        rw [hlong, nil_append]
        cases hrest : expandAll next rest with
        | error path =>
          rw [hrest] at ih
          exact ih
        | ok t =>
          rw [hrest] at ih
          exact ⟨.inclusion hexpands ih.1, ih.2⟩

/-- To expand within a depth decides about the paths that are one step longer. -/
theorem decides_expandWithin (n : Nat) (name : String) :
    Decides pieces (pieces name) (pathsFrom pieces (n + 1) name) (expandWithin pieces n name) := by
  induction n generalizing name with
  | zero =>
    have hnext (target : String) : Decides pieces (pieces target)
        ((pathsFrom pieces 0 target).map (name :: ·)) (.error [name, target]) := rfl
    exact decides_expandAll hnext (pieces name)
  | succ n ih =>
    refine decides_expandAll (fun target => ?_) _
    have htarget := ih target
    cases hwithin : expandWithin pieces n target with
    | ok s =>
      rw [hwithin] at htarget
      exact ⟨htarget.1, by rw [htarget.2]; rfl⟩
    | error path =>
      rw [hwithin] at htarget
      show ((pathsFrom pieces (n + 1) target).map (name :: ·)).head? = some (name :: path)
      rw [head?_map, show (pathsFrom pieces (n + 1) target).head? = some path from htarget]
      rfl

end Expansion

/-! ## The code of pieces -/

/-- The code of pieces: an empty text has none, and an inclusion loads the template into a temporary
and outputs its render. -/
inductive PieceCode : List Piece → List Stmt → Prop where
  | nil : PieceCode [] []
  | blank {rest code} : PieceCode rest code → PieceCode (.text "" :: rest) code
  | text {s rest code} :
    PieceCode rest code → PieceCode (.text s :: rest) (.emit .output (.text s) :: code)
  | inclusion (k : Nat) {name rest code} : PieceCode rest code → PieceCode (.inclusion name :: rest)
      (.assign (.temp k) (.method (.name .env) .getTemplate [.text name]) ::
        .emit .output (.rendered (.temp k)) :: code)

namespace PieceCode

variable {ps qs : List Piece} {code code' : List Stmt}

theorem append (h : PieceCode ps code) (h' : PieceCode qs code') :
    PieceCode (ps ++ qs) (code ++ code') := by
  induction h with
  | nil => exact h'
  | blank _ ih => exact .blank ih
  | text _ ih => exact .text ih
  | inclusion k _ ih => exact .inclusion k ih

/-- The code of pieces gives no reason to refuse a module. -/
theorem checks_append (h : PieceCode ps code) (tail : List Stmt) :
    malformedBody? (code ++ tail) = malformedBody? tail ∧
      bodyDuplicateParam? (code ++ tail) = bodyDuplicateParam? tail ∧
      bodyNestsTooDeep 0 (code ++ tail) = bodyNestsTooDeep 0 tail := by
  induction h with
  | nil => exact ⟨rfl, rfl, rfl⟩
  | blank _ ih => exact ih
  | text _ ih => exact ih
  | inclusion k _ ih => exact ih

end PieceCode

theorem pieceCode_text (s : String) :
    PieceCode [.text s] (if s.isEmpty then [] else [.emit .output (.text s)]) := by
  by_cases hs : s.isEmpty = true
  · rw [if_pos hs, String.isEmpty_iff.1 hs]
    exact .blank .nil
  · rw [if_neg hs]
    exact .text .nil

/-- Texts that are output one after the other. -/
theorem gives_outputs_of_texts {scope} (p : Progress) : ∀ {items : List Node}
    {ps : List Piece}, items.mapM Node.textPiece? = some ps →
    ∃ code, Gives (outputs scope .output items) p code p ∧ PieceCode ps code := by
  intro items
  induction items with
  | nil =>
    intro ps h
    cases h
    exact ⟨[], rfl, .nil⟩
  | cons n rest ih =>
    intro ps h
    rw [mapM_cons] at h
    cases n <;> try cases h
    case text pos s =>
      cases hrest : rest.mapM Node.textPiece? with
      | none =>
        rw [hrest] at h
        cases h
      | some qs =>
        rw [hrest] at h
        cases h
        obtain ⟨code, hgives, hcode⟩ := ih hrest
        refine ⟨_, ?_, (pieceCode_text s).append hcode⟩
        simp only [outputs, gives_bind, gives_pure]
        refine ⟨code, p, hgives, ?_, rfl⟩
        split <;> rfl

/-- The code of one statement that stands for pieces. -/
theorem gives_stmt_of_pieces {scope inRoot} (p : Progress) {n ps} (h : n.pieces? = some ps) :
    ∃ code p', Gives (stmt ⟨inRoot, .output⟩ scope n) p (code, scope) p' ∧ p'.child = p.child ∧
      PieceCode ps code := by
  cases n <;> try cases h
  case text pos s =>
    exact ⟨_, p, by simp [stmt], rfl, pieceCode_text s⟩
  case output pos items =>
    obtain ⟨code, hgives, hcode⟩ := gives_outputs_of_texts p h
    refine ⟨code, p, ?_, rfl, hcode⟩
    simp only [stmt, gives_bind, gives_pure]
    exact ⟨code, p, hgives, rfl, rfl⟩
  case inclusion pos template =>
    cases template <;> try cases h
    case literal pos' c =>
      cases c <;> cases h
      rename_i name
      refine ⟨_, { p with temps := p.temps + 1 }, ?_, rfl, .inclusion (p.temps + 1) .nil⟩
      simp only [stmt, value, expr, gives_bind, gives_fresh, gives_demand, gives_pure]
      exact ⟨_, _, ⟨rfl, rfl⟩, _, _, ⟨⟨⟩, _, ⟨rfl, rfl⟩, rfl, rfl⟩, rfl, rfl⟩

/-- The code of statements that stand for pieces. -/
theorem gives_stmts_of_pieces {scope inRoot} : ∀ {items : List Node}
    {ps : List Piece} (p : Progress), Node.piecesIn? items = some ps →
    ∃ code p', Gives (stmts ⟨inRoot, .output⟩ scope items) p (code, scope) p' ∧
      p'.child = p.child ∧ PieceCode ps code := by
  intro items
  induction items with
  | nil =>
    intro ps p h
    cases h
    exact ⟨[], p, rfl, rfl, .nil⟩
  | cons n rest ih =>
    intro ps p h
    obtain ⟨qs, hn, h⟩ := Option.bind_eq_some_iff.1 h
    obtain ⟨rs, hrest, h⟩ := Option.bind_eq_some_iff.1 h
    cases h
    obtain ⟨code, q, hgives, hchild, hcode⟩ := @gives_stmt_of_pieces scope inRoot p n qs hn
    obtain ⟨code', q', hgives', hchild', hcode'⟩ := ih q hrest
    refine ⟨code ++ code', q', ?_, hchild'.trans hchild, hcode.append hcode'⟩
    simp only [stmts, gives_bind, gives_pure]
    exact ⟨(code, scope), q, hgives, (code', scope), q', hgives', rfl, rfl⟩

/-- The root function around the code of pieces. -/
def pieceRoot (code : List Stmt) : Script.Function where
  name := .root
  params := entryParams
  body := .assign .output (.list []) :: .assign .parentTemplate (.const .null) ::
    (code ++ [.ret (.joined .output)])

theorem gives_rootFunction_of_pieces {items ps} (h : Node.piecesIn? items = some ps) :
    ∃ code p, PieceCode ps code ∧ Gives (rootFunction items) {} (pieceRoot code) p ∧
      p.child = false := by
  obtain ⟨code, p, hgives, hchild, hcode⟩ := gives_stmts_of_pieces {} h
  refine ⟨code, p, hcode, ?_, hchild⟩
  simp only [rootFunction, gives_bind, gives_get, gives_pure]
  refine ⟨(code, {}), p, hgives, p, p, ⟨rfl, rfl⟩, ?_, rfl⟩
  rw [hchild]
  simp [pieceRoot]

/-! ## Loading such a template -/

/-- Nothing that stands for pieces has a block in it, nor makes its template inherit. -/
def Node.isBare : Node → Bool
  | .block .. | .inherit .. => false
  | _ => true

theorem isBare_of_texts : ∀ {items : List Node} {ps : List Piece},
    items.mapM Node.textPiece? = some ps → ∀ n ∈ Node.forest items, n.isBare := by
  intro items
  induction items with
  | nil => intro ps _ n hn; cases hn
  | cons m rest ih =>
    intro ps h n hn
    rw [mapM_cons] at h
    cases m <;> try cases h
    case text pos s =>
      cases hrest : rest.mapM Node.textPiece? with
      | none =>
        rw [hrest] at h
        cases h
      | some qs =>
        rcases mem_cons.1 hn with rfl | hn
        · rfl
        · exact ih hrest n hn

theorem isBare_of_pieces : ∀ {items : List Node} {ps : List Piece},
    Node.piecesIn? items = some ps → ∀ n ∈ Node.forest items, n.isBare := by
  intro items
  induction items with
  | nil => intro ps _ n hn; cases hn
  | cons m rest ih =>
    intro ps h n hn
    obtain ⟨qs, hm, h⟩ := Option.bind_eq_some_iff.1 h
    obtain ⟨rs, hrest, -⟩ := Option.bind_eq_some_iff.1 h
    rw [Node.forest, cons_append, mem_cons, mem_append] at hn
    rcases hn with rfl | hn | hn
    · cases n <;> first | rfl | cases hm
    · cases m <;> try cases hm
      case text.refl => cases hn
      case output pos items => exact isBare_of_texts hm n hn
      case inclusion pos template =>
        cases template <;> try cases hm
        case literal =>
          rcases mem_cons.1 hn with rfl | hn
          · rfl
          · cases hn
    · exact ih hrest n hn

theorem blocks_eq_nil_of_pieces {pos items ps} (h : Node.piecesIn? items = some ps) :
    (Node.root pos items).blocks = [] := by
  refine filterMap_eq_nil_iff.2 fun n hn => ?_
  have hbare := isBare_of_pieces h n hn
  cases n <;> first | rfl | cases hbare

/-- A template that consists of pieces compiles, if its file name is free of the null character. -/
theorem compile_of_pieces {pos items ps name? file?} (h : Node.piecesIn? items = some ps)
    (hfile : Char.ofNat 0 ∉ (properName [file?, name?]).toList) :
    ∃ m c, ({} : Compiler).compile (.root pos items) false name? file? = (.ok m, c) := by
  obtain ⟨code, p, hcode, hroot, -⟩ := gives_rootFunction_of_pieces h
  have hmodule : Gives (templateModule (.root pos items)) {} (⟨[pieceRoot code]⟩, []) p := by
    simp only [templateModule, blockTable, blocks_eq_nil_of_pieces h, foldlM_nil, gives_bind,
      gives_pure]
    exact ⟨_, p, hroot, [], p, ⟨rfl, rfl⟩, [], p, rfl, rfl, rfl⟩
  have hload : Module.loadError? ⟨[pieceRoot code]⟩ = none := by
    obtain ⟨hform, hparams, hloops⟩ := hcode.checks_append [.ret (.joined .output)]
    have hform : malformedBody? (pieceRoot code).body = none := hform
    have hparams : bodyDuplicateParam? (pieceRoot code).body = none := hparams
    have hloops : bodyNestsTooDeep 0 (pieceRoot code).body = false := hloops
    simp only [Module.loadError?, findSome?_cons, findSome?_nil, any_cons, any_nil, hform, hparams,
      hloops]
    rfl
  unfold Compiler.compile Compiler.compileModule
  unfold Gives at hmodule
  simp only [hmodule, hload, contains_iff_mem, hfile, if_false, Bool.false_eq_true]
  exact ⟨_, _, rfl⟩

/-- The loader has a template that consists of the given pieces, and its file name is free of the
null character. -/
def Loader.Offers (loader : Loader) (name : String) (ps : List Piece) : Prop :=
  ∃ pos items file?, ((loader.source (.ofText name)).perform {} {}).1 =
      .ok (.root pos items, file?) ∧
    Node.piecesIn? items = some ps ∧ Char.ofNat 0 ∉ (properName [file?, some name]).toList

/-- A finite set of templates, each made of text and of inclusions of templates in the set. -/
structure IncludeGraph where
  loader : Loader
  names : List String
  pieces : String → List Piece
  offered : ∀ name ∈ names, loader.Offers name (pieces name)
  proper : ∀ name ∈ names, name ≠ ""
  closed : ∀ name ∈ names, ∀ target ∈ targets (pieces name), target ∈ names

/-- A template object in a state, made of the given pieces: its root is the function `q` there. -/
structure Template.MadeOf (t : Template) (name : String) (ps : List Piece) (w : World) : Prop where
  name : t.name? = some name
  root : ∃ q r code, PieceCode ps code ∧ t.root = .function q ∧
    w.functions.get? q = some (.closure ((pieceRoot code).closure r))

/-- Loading a template of the set. -/
theorem IncludeGraph.outcome_getTemplate (g : IncludeGraph) {name} (hname : name ∈ g.names) {w}
    (hloader : w.env.loader? = some g.loader) (eager : Bool) :
    ∃ m t ms, (getTemplate (.ofText name) eager).outcome w =
        (.ok w.templates.size, w.load m t ms) ∧ t.MadeOf name (g.pieces name) (w.load m t ms) := by
  obtain ⟨pos, items, file?, hfound, hpieces, hfile⟩ := g.offered name hname
  have havailable : Source.Available ⟨name, .root pos items, file?⟩ g.loader :=
    { found := hfound
      compiles := compile_of_pieces hpieces hfile
      named := fun d hd => by rw [blocks_eq_nil_of_pieces hpieces] at hd; cases hd }
  obtain ⟨m, t, ms, houtcome, htname, hloaded⟩ :=
    Eval.outcome_getTemplate havailable hloader eager
  refine ⟨m, t, ms, houtcome, htname, ?_⟩
  obtain ⟨pos', items', f, p, htree, hgives, hroot, hq⟩ := hloaded.root
  cases htree
  obtain ⟨code, p', hcode, hgives', -⟩ := gives_rootFunction_of_pieces hpieces
  cases hgives.symm.trans hgives'
  exact ⟨_, _, code, hcode, hroot, hq⟩

/-! ## Running the code of pieces -/

/-- A later state with the same environment and render state, in which the activations and lists of
the earlier one stand unchanged. -/
structure World.Succeeds (u w : World) : Prop where
  env : u.env = w.env
  state : u.state? = w.state?
  activations : Extends w.activations u.activations
  lists : Extends w.lists u.lists

namespace World.Succeeds

variable {w u v : World}

theorem trans (h : v.Succeeds u) (h' : u.Succeeds w) : v.Succeeds w :=
  ⟨h.env.trans h'.env, h.state.trans h'.state, h'.activations.trans h.activations,
    h'.lists.trans h.lists⟩

theorem load (m : Script.Module) (t : Template) (ms : Array String) : (w.load m t ms).Succeeds w :=
  ⟨rfl, rfl, (Extends.refl _).push _, .refl _⟩

end World.Succeeds

/-- The root of a template in the middle of its run, begun in the state `start`: it works in the
activation and with the buffer that it made, and has output the text `done` so far. -/
structure PieceRun (start : World) (context frame : Ref) (owned : List Ident) (done : String)
    (w : World) : Prop where
  succeeds : w.Succeeds start
  activation : ∃ a, w.activations.get? start.activations.size = some a ∧ a.owned = owned ∧
    a.vars.find? .env = some (.value .environment) ∧
    a.vars.find? .context = some (.context context) ∧
    a.vars.find? .frame = some (.frame frame) ∧
    a.vars.find? .output = some (.value (.list start.lists.size))
  output : ∃ items, w.lists.get? start.lists.size = some items ∧ Spells items.toList done

namespace PieceRun

variable {start w u : World} {context frame : Ref} {owned : List Ident} {done : String}
  (h : PieceRun start context frame owned done w)

include h

theorem of_succeeds (hu : u.Succeeds w) : PieceRun start context frame owned done u where
  succeeds := hu.trans h.succeeds
  activation := by
    obtain ⟨a, ha, hvars⟩ := h.activation
    exact ⟨a, (hu.activations.2 _ (get?_eq_some_lt ha)).trans ha, hvars⟩
  output := by
    obtain ⟨items, hitems, hspells⟩ := h.output
    exact ⟨items, (hu.lists.2 _ (get?_eq_some_lt hitems)).trans hitems, hspells⟩

theorem emit {o} (s : String) :
    PieceRun start context frame owned (done ++ s)
      (w.append start.lists.size (.str (o := o) s)) where
  succeeds := ⟨h.succeeds.env, h.succeeds.state, h.succeeds.activations,
    h.succeeds.lists.modify (Nat.le_refl _) _⟩
  activation := h.activation
  output := by
    obtain ⟨items, hitems, hspells⟩ := h.output
    refine ⟨items.push (.str (o := o) s), ?_, ?_⟩
    · show (w.lists.modify _ _).get? _ = _
      rw [get?_modify_self, hitems]
      rfl
    · rw [Array.toList_push]
      exact hspells.append

theorem assign (k : Nat) (c : Cell) :
    PieceRun start context frame owned done (w.assign start.activations.size (.temp k) c) where
  succeeds := ⟨h.succeeds.env, h.succeeds.state, h.succeeds.activations.modify (Nat.le_refl _) _,
    h.succeeds.lists⟩
  activation := by
    obtain ⟨a, ha, hown, henv, hcontext, hframe, hout⟩ := h.activation
    have hkeep {id : Ident} {c' : Cell} (hc : a.vars.find? id = some c') (hid : id ≠ .temp k) :
        (a.assign (.temp k) c).vars.find? id = some c' := (a.vars.find?_insert_of_ne hid c).trans hc
    exact ⟨a.assign (.temp k) c, by rw [get?_modify_self, ha]; rfl, hown, hkeep henv nofun,
      hkeep hcontext nofun, hkeep hframe nofun, hkeep hout nofun⟩
  output := h.output

end PieceRun

/-- The report of an inclusion that is nested too deep, along the path that leads to it. -/
def refusal (limit : Nat) (path : List String) : Report :=
  let depth : Int := limit
  let last := path.getLastD ""
  .render
    { message := s!"Maximum include depth exceeded ({depth}) when rendering " ++ s!"'{last}'"
      code := .includeDepth
      template? := path[limit]?
      stack := (path.take limit).zipIdx.map fun e => (e.1, (e.2 : Int))
      suggestion? := some "Check for circular includes or imports: A → B → A" }

/-- The render state of a template that the templates in `above` have included, outermost first. -/
def levelState (limit : Nat) (above : List String) (name : String) : RenderState where
  template? := some name
  depth := above.length
  maxDepth := limit
  stack := above.zipIdx.map fun e => (e.1, (e.2 : Int))

/-- What running a template delivers, compared with an attempt to expand it. -/
inductive Delivers (limit : Nat) (above : List String) (w : World) :
    Except (List String) String → Except Halt Value × World → Prop where
  | text {s o u} (h : u.Succeeds w) : Delivers limit above w (.ok s) (.ok (.str (o := o) s), u)
  | refused {path u} : Delivers limit above w (.error path)
      (.error (.fault (.report (refusal limit (above ++ path)))), u)

/-- What running the code of pieces does, compared with an attempt to expand them. -/
inductive PieceOutcome (limit : Nat) (above : List String) (start : World) (context frame : Ref)
    (owned : List Ident) (done : String) :
    Except (List String) String → Except Halt (Option Cell) × World → Prop where
  | text {s u} (h : PieceRun start context frame owned (done ++ s) u) :
    PieceOutcome limit above start context frame owned done (.ok s) (.ok none, u)
  | refused {path u} : PieceOutcome limit above start context frame owned done (.error path)
      (.error (.fault (.report (refusal limit (above ++ path)))), u)

namespace PieceRun

variable {start w : World} {context frame : Ref} {owned : List Ident} {done : String}
  (h : PieceRun start context frame owned done w)

include h

theorem outcome_read_output (hown : .output ∈ owned) :
    (read start.activations.size .output).outcome w =
      (.ok (.value (.list start.lists.size)), w) := by
  obtain ⟨a, ha, rfl, -, -, -, hout⟩ := h.activation
  exact outcome_read_own ha hown hout

/-- Loading the template that is to be included. -/
theorem outcome_eval_getTemplate (fuel : Nat)
    (hown : .env ∈ owned) (g : IncludeGraph) {name} (hname : name ∈ g.names)
    (hloader : start.env.loader? = some g.loader) :
    ∃ m t ms, (eval (call (fuel + 1)) start.activations.size
        (.method (.name .env) .getTemplate [.text name])).outcome w =
          (.ok (.value (.template w.templates.size)), w.load m t ms) ∧
      t.MadeOf name (g.pieces name) (w.load m t ms) := by
  obtain ⟨a, ha, rfl, henv, -⟩ := h.activation
  obtain ⟨m, t, ms, hget, hmade⟩ := g.outcome_getTemplate hname (h.succeeds.env ▸ hloader) false
  refine ⟨m, t, ms, ?_, hmade⟩
  have hread := outcome_read_own ha hown henv
  have hargs : (evalAll (call (fuel + 1)) start.activations.size [.text name]).outcome w =
      (.ok [.value (.ofText name)], w) := rfl
  rw [outcome_eval_method .getTemplate hread rfl hargs]
  exact outcome_bind_of_ok hget _

/-- Rendering the template that a temporary holds, with the variables of the context and inside the
frame of the run. -/
theorem outcome_eval_render (fuel : Nat)
    (hown : .context ∈ owned ∧ .frame ∈ owned) {k t} (hk : .temp k ∈ owned)
    (ht : ∃ a, w.activations.get? start.activations.size = some a ∧
      a.vars.find? (.temp k) = some (.value (.template t))) :
    ∃ dicts vars, (eval (call (fuel + 1)) start.activations.size (.rendered (.temp k))).outcome w =
      (do return .value (← render (call fuel) t vars (some frame)) :
        Eval Cell).outcome { w with dicts } := by
  obtain ⟨a, ha, rfl, -, hcontext, hframe, -⟩ := h.activation
  obtain ⟨a', ha', htemp⟩ := ht
  cases ha.symm.trans ha'
  have hvars : ∃ d, (eval (call (fuel + 1)) start.activations.size
      (.method (.name .context) .getVariables [])).outcome w =
        (.ok (.value (.dict w.dicts.size)), { w with dicts := w.dicts.push d }) := by
    rw [outcome_eval_method .getVariables (outcome_read_own ha hown.1 hcontext) rfl
      outcome_evalAll_nil]
    exact ⟨_, rfl⟩
  obtain ⟨d, hvars⟩ := hvars
  have hframe' : (eval (call (fuel + 1)) start.activations.size (.name .frame)).outcome
      { w with dicts := w.dicts.push d } =
      (.ok (.frame frame), { w with dicts := w.dicts.push d }) :=
    outcome_read_own ha hown.2 hframe
  have hargs := outcome_evalAll_cons hvars (outcome_evalAll_cons hframe' outcome_evalAll_nil)
  rw [outcome_eval_method .render (outcome_read_own ha hk htemp) rfl hargs]
  exact ⟨w.dicts.push d, _, outcome_method_render⟩

end PieceRun

theorem PieceOutcome.behind {limit above start context frame owned done s attempt o}
    (h : PieceOutcome limit above start context frame owned (done ++ s) attempt o) :
    PieceOutcome limit above start context frame owned done (attempt >>= fun t => pure (s ++ t))
      o := by
  cases h with
  | text h => exact .text (String.append_assoc ▸ h)
  | refused => exact .refused

/-- The identifiers that the code of pieces reads belong to the function around it. -/
structure OwnsPieces (owned : List Ident) (code : List Stmt) : Prop where
  entry : ∀ id ∈ [Ident.env, .context, .frame, .output], id ∈ owned
  assigned : assignedInBody code ⊆ owned

/-- Renders of the templates that pieces include deliver what the given attempts say. -/
def Includes (g : IncludeGraph) (limit : Nat) (above : List String) (start : World) (fuel : Nat)
    (next : String → Except (List String) String) : Prop :=
  ∀ target ∈ g.names, ∀ (u : World) (r : Ref) (vars : List (String × Value)) (frame? : Option Ref),
    u.env = start.env → u.state? = start.state? →
    (u.template r).MadeOf target (g.pieces target) u →
    Delivers limit above u (next target) ((render (call fuel) r vars frame?).outcome u)

/-- The code of one inclusion outputs what the render of the included template delivers. -/
theorem PieceRun.inclusion {g limit fuel k above start w context frame owned done name next}
    (hw : PieceRun start context frame owned done w) (rounds : Nat)
    (hloader : start.env.loader? = some g.loader) (hnext : Includes g limit above start fuel next)
    (hname : name ∈ g.names) (hentry : ∀ id ∈ [Ident.env, .context, .frame, .output], id ∈ owned)
    (hk : .temp k ∈ owned) : PieceOutcome limit above start context frame owned done (next name)
      ((execAll (call (fuel + 1)) rounds start.activations.size
        [.assign (.temp k) (.method (.name .env) .getTemplate [.text name]),
          .emit .output (.rendered (.temp k))]).outcome w) := by
  obtain ⟨m, t, ms, hget, hmade⟩ :=
    hw.outcome_eval_getTemplate fuel (hentry _ (by decide)) g hname hloader
  have hloaded := hw.of_succeeds (.load m t ms)
  obtain ⟨a, ha, -⟩ := hloaded.activation
  have hassigned := hloaded.assign k (.value (.template w.templates.size))
  rw [outcome_execAll_cons (outcome_exec_assign hget), execAll_singleton]
  obtain ⟨dicts, vars, heval⟩ := hassigned.outcome_eval_render fuel
    ⟨hentry _ (by decide), hentry _ (by decide)⟩ hk
    ⟨_, by rw [get?_modify_self, ha]; rfl, a.vars.find?_insert_self _ _⟩
  have hread := hassigned.outcome_read_output (hentry _ (by decide))
  -- The render starts where the variables of the context were copied to a dictionary.
  generalize hu : (w.load m t ms).assign start.activations.size (.temp k)
    (.value (.template w.templates.size)) = u at *
  have hready : PieceRun start context frame owned done { u with dicts } :=
    hassigned.of_succeeds ⟨rfl, rfl, .refl _, .refl _⟩
  have htemplate : ({ u with dicts } : World).template w.templates.size = t := by
    subst hu
    exact congrArg (·.getD default) (w.templates.get?_push_self t)
  have hdelivers := hnext name hname { u with dicts } w.templates.size vars (some frame)
    hready.succeeds.env hready.succeeds.state
    (by rw [htemplate]; subst hu; exact ⟨hmade.name, hmade.root⟩)
  generalize next name = attempt at hdelivers ⊢
  generalize ho : (render (call fuel) w.templates.size vars (some frame)).outcome
    { u with dicts } = o at hdelivers
  cases hdelivers with
  | text hsucceeds =>
    rw [outcome_bind_of_ok ho] at heval
    rw [outcome_exec_emit hread heval]
    exact .text ((hready.of_succeeds hsucceeds).emit _)
  | refused =>
    rw [outcome_bind_of_error ho] at heval
    rw [outcome_exec_emit_of_error hread heval]
    exact .refused

/-- The code of pieces outputs their expansion, if the renders of what they include deliver
theirs. -/
theorem PieceCode.run {ps code} (h : PieceCode ps code)
    {g limit fuel above start context frame owned next} (rounds : Nat)
    (hloader : start.env.loader? = some g.loader) (hnext : Includes g limit above start fuel next)
    (hown : OwnsPieces owned code) (htargets : ∀ target ∈ targets ps, target ∈ g.names) {done w}
    (hw : PieceRun start context frame owned done w) :
    PieceOutcome limit above start context frame owned done (expandAll next ps)
      ((execAll (call (fuel + 1)) rounds start.activations.size code).outcome w) := by
  induction h generalizing done w with
  | nil => exact .text (String.append_empty ▸ hw)
  | @blank rest code _ ih =>
    refine .behind ?_
    rw [String.append_empty]
    exact ih hown htargets hw
  | @text s rest code _ ih =>
    have hread := hw.outcome_read_output (hown.entry _ (by decide))
    have heval : (eval (call (fuel + 1)) start.activations.size (.text s)).outcome w =
        (.ok (.value (.ofText s)), w) := rfl
    rw [outcome_execAll_cons (outcome_exec_emit hread heval)]
    have hrest : OwnsPieces owned code :=
      ⟨hown.entry, fun id hid => hown.assigned (mem_append_right _ hid)⟩
    exact .behind (ih hrest htargets (hw.emit s))
  | @inclusion k name rest code _ ih =>
    have hname : name ∈ g.names := htargets name mem_cons_self
    have hrest : OwnsPieces owned code :=
      ⟨hown.entry, fun id hid => hown.assigned (mem_append_right _ (mem_append_right _ hid))⟩
    have hstep := hw.inclusion rounds hloader hnext hname hown.entry (hown.assigned mem_cons_self)
    show PieceOutcome _ _ _ _ _ _ _ (next name >>= fun s => expandAll next rest >>= fun t =>
      pure (s ++ t)) ((execAll _ _ _ ([_, _] ++ code)).outcome w)
    generalize next name = attempt at hstep ⊢
    generalize ho : (execAll (call (fuel + 1)) rounds start.activations.size _).outcome w = o
      at hstep
    cases hstep with
    | text hu =>
      rw [outcome_execAll_append ho]
      exact .behind (ih hrest (fun target ht => htargets target (mem_cons_of_mem _ ht)) hu)
    | refused =>
      rw [outcome_execAll_append_of_error ho]
      exact .refused

/-! ## Level by level -/

section Levels

variable {limit : Nat} {above : List String} {name target : String}

theorem opening_of_lt (h : above.length < limit) (hname : name ≠ "") (htarget : target ≠ "")
    (l : Int) : RenderState.opening (some (levelState limit above name)) l (some target) =
      .ok (levelState limit (above ++ [name]) target) := by
  have hreport : (levelState limit above name).depthReport? (some target) = none := by
    refine if_neg ?_
    show ¬ (above.length : Int) ≥ (limit : Int)
    omega
  have hproper {s : String} (hs : s ≠ "") : RenderState.properName? (some s) = some s := by
    simp [RenderState.properName?, Option.filter, hs]
  simp only [RenderState.opening, hreport]
  simp [RenderState.child, levelState, hproper hname, hproper htarget, zipIdx_append]

theorem opening_of_eq (h : above.length = limit) (l : Int) :
    RenderState.opening (some (levelState limit above name)) l (some target) =
      .error (refusal limit (above ++ [name, target])) := by
  subst h
  simp [RenderState.opening, RenderState.depthReport?, levelState, refusal, RenderState.nameText]

/-- The root of a template begins with an empty buffer and no parent. -/
theorem outcome_pieceRoot_start {w fuel rounds home context frame} (code : List Stmt) :
    ∃ u, PieceRun w context frame (ownedBy entryParams (pieceRoot code).body) "" u ∧
      (execAll (call fuel) rounds w.activations.size (pieceRoot code).body).outcome { w with
          activations := w.activations.push (((pieceRoot code).closure home).activation
            (entryCells .environment context frame)) } =
      (execAll (call fuel) rounds w.activations.size
        (code ++ [.ret (.joined .output)])).outcome u := by
  -- Both assignments are made in the new activation, and the buffer is the first new list.
  refine ⟨_, ?_, (outcome_execAll_cons (outcome_exec_assign rfl)).trans
    (outcome_execAll_cons (outcome_exec_assign rfl))⟩
  exact
    { succeeds := ⟨rfl, rfl, (((Extends.refl _).push _).modify (Nat.le_refl _) _).modify
        (Nat.le_refl _) _, (Extends.refl _).push _⟩
      activation := by
        rw [get?_modify_self, get?_modify_self, get?_push_self]
        exact ⟨_, rfl, rfl, rfl, rfl, rfl, rfl⟩
      output := ⟨#[], w.lists.get?_push_self _, .nil⟩ }

/-- The root of a template delivers its expansion, if the renders of what it includes do. -/
theorem Template.MadeOf.delivers {g} {t : Template} {w fuel next context frame}
    (ht : t.MadeOf name (g.pieces name) w) (hname : name ∈ g.names)
    (hloader : w.env.loader? = some g.loader) (hnext : Includes g limit above w fuel next) :
    Delivers limit above w (expandAll next (g.pieces name))
      (((call (fuel + 2)).enter t.root .environment context frame).outcome w) := by
  obtain ⟨q, home, code, hcode, hroot, hq⟩ := ht.root
  obtain ⟨u, hu, hstart⟩ := @outcome_pieceRoot_start w (fuel + 1) (fuel + 1) home context frame code
  have hown : OwnsPieces (ownedBy entryParams (pieceRoot code).body) code := by
    have hassigned : assignedInBody (pieceRoot code).body =
        .output :: .parentTemplate :: (assignedInBody code ++ []) := by
      show _ :: _ :: assignedInBody (code ++ [.ret (.joined .output)]) = _
      rw [assignedInBody_append]
      rfl
    constructor
    · intro id hid
      refine mem_eraseDups.2 ?_
      rw [hassigned]
      simp only [mem_cons, not_mem_nil, or_false] at hid
      rcases hid with rfl | rfl | rfl | rfl <;> simp [entryParams]
    · intro id hid
      refine mem_eraseDups.2 ?_
      rw [hassigned]
      simp [hid]
  have hrun := hcode.run (fuel + 1) hloader hnext hown (g.closed name hname) hu
  rw [hroot, outcome_enter hq rfl]
  generalize expandAll next (g.pieces name) = attempt at hrun ⊢
  generalize ho : (execAll (call (fuel + 1)) (fuel + 1) w.activations.size code).outcome u = o
    at hrun
  cases hrun with
  | refused =>
    rw [outcome_bind_of_error (hstart.trans (outcome_execAll_append_of_error ho))]
    exact .refused
  | @text s u' hu' =>
    obtain ⟨items, hitems, hspells⟩ := hu'.output
    rw [String.empty_append] at hspells
    obtain ⟨origin, objects, hjoined⟩ := outcome_eval_joined fuel
      (hu'.outcome_read_output (hown.entry _ (by decide))) hitems hspells
    have hret : (execAll (call (fuel + 1)) (fuel + 1) w.activations.size
        [.ret (.joined .output)]).outcome u' =
          (.ok (some (.value (.str s))), { u' with objects }) :=
      outcome_execAll_cons_of_ret (outcome_exec_ret hjoined)
    rw [outcome_bind_of_ok ((hstart.trans (outcome_execAll_append ho)).trans hret)]
    exact .text ⟨hu'.succeeds.env, hu'.succeeds.state, hu'.succeeds.activations, hu'.succeeds.lists⟩

theorem includes_at_limit {g w fuel} (halive : w.env.alive = true)
    (hstate : w.state? = some (levelState limit above name)) (h : above.length = limit) :
    Includes g limit above w fuel fun target => .error [name, target] := by
  intro target _ u r vars frame? henv hu hmade
  rw [outcome_render rfl (by rw [henv, halive]), outcome_runEntry_of_refused]
  · exact .refused
  · rw [hmade.name]
    show RenderState.opening u.state? _ _ = _
    rw [hu, hstate]
    exact opening_of_eq h _

/-- A render below the limit delivers what its root delivers one level deeper. -/
theorem includes_below_limit {g w fuel} {next : String → Except (List String) String}
    (halive : w.env.alive = true) (hstate : w.state? = some (levelState limit above name))
    (hname : name ∈ g.names) (h : above.length < limit)
    (hroot : ∀ target ∈ g.names, ∀ (u : World) (t : Template) (context frame : Ref),
      u.env = w.env → u.state? = some (levelState limit (above ++ [name]) target) →
      t.MadeOf target (g.pieces target) u →
      Delivers limit (above ++ [name]) u (next target)
        (((call fuel).enter t.root .environment context frame).outcome u)) :
    Includes g limit above w fuel fun target => (next target).mapError (name :: ·) := by
  intro target htarget u r vars frame? henv hu hmade
  show Delivers limit above u ((next target).mapError (name :: ·)) _
  rw [outcome_render rfl (by rw [henv, halive])]
  generalize hv : ({ u with
    contexts := u.contexts.push (.ofBlocks (u.env.globals.insertAll vars)
      (u.template r).blocks.entries)
    frames := u.frames.push { parent := frame? } } : World) = v
  have hopening : RenderState.opening v.state? v.env.maxDepth (u.template r).name? =
      .ok (levelState limit (above ++ [name]) target) := by
    subst hv
    rw [hmade.name, hu, hstate]
    exact opening_of_lt h (g.proper name hname) (g.proper target htarget) _
  have hdelivers := hroot target htarget
    { v with state? := some (levelState limit (above ++ [name]) target) } (u.template r)
    u.contexts.size u.frames.size (by subst hv; exact henv) rfl
    (by subst hv; exact ⟨hmade.name, hmade.root⟩)
  generalize next target = attempt at hdelivers ⊢
  generalize ho : ((call fuel).enter (u.template r).root .environment u.contexts.size
    u.frames.size).outcome _ = o at hdelivers
  cases hdelivers with
  | text hsucceeds =>
    rw [outcome_runEntry_of_ok hopening ho]
    subst hv
    exact .text ⟨hsucceeds.env, rfl, hsucceeds.activations, hsucceeds.lists⟩
  | @refused path u' =>
    rw [outcome_runEntry_of_error hopening ho, append_assoc]
    exact .refused

/-- The root of a template of the set, run with enough fuel at any level, delivers what the attempt
to expand it within the levels that are left says. -/
theorem IncludeGraph.delivers (g : IncludeGraph) {n fuel} {w : World} {t : Template}
    {context frame : Ref} (hlevel : above.length + n = limit) (hfuel : 2 * n + 2 ≤ fuel)
    (hname : name ∈ g.names) (hloader : w.env.loader? = some g.loader) (halive : w.env.alive = true)
    (hstate : w.state? = some (levelState limit above name))
    (ht : t.MadeOf name (g.pieces name) w) : Delivers limit above w (expandWithin g.pieces n name)
      (((call fuel).enter t.root .environment context frame).outcome w) := by
  induction n generalizing above name fuel w t context frame with
  | zero =>
    obtain ⟨fuel, rfl⟩ := Nat.exists_eq_add_of_le' hfuel
    exact ht.delivers hname hloader (includes_at_limit halive hstate hlevel)
  | succ n ih =>
    obtain ⟨fuel, rfl⟩ := Nat.exists_eq_add_of_le' (Nat.le_trans (Nat.le_add_left 2 _) hfuel)
    refine ht.delivers hname hloader
      (includes_below_limit halive hstate hname (by omega) fun target htarget u t context frame henv
        hu hmade => ?_)
    refine ih ?_ (by omega) htarget (by rw [henv, hloader]) (by rw [henv, halive]) hu hmade
    rw [length_append, length_singleton]
    omega

end Levels

/-- The outermost render of a template of the set delivers what the attempt to expand it within the
limit says. -/
theorem IncludeGraph.render_delivers (g : IncludeGraph) {start} (hstart : start ∈ g.names)
    {limit : Nat} {w : World} (hloader : w.env.loader? = some g.loader)
    (hlimit : w.env.maxDepth = limit) (halive : w.env.alive = true) (hstate : w.state? = none)
    {fuel} (hfuel : 2 * limit + 2 ≤ fuel) (eager : Bool) (vars : List (String × Value))
    (frame? : Option Ref) : ∃ v u, Delivers limit [] v (expandWithin g.pieces limit start) (((do
        let t ← getTemplate (.ofText start) eager
        render (call fuel) t vars frame? : Eval Value).outcome w).1, u) := by
  obtain ⟨m, t, ms, hget, hmade⟩ := g.outcome_getTemplate hstart hloader eager
  have htemplate : (w.load m t ms).template w.templates.size = t :=
    congrArg (·.getD default) (w.templates.get?_push_self t)
  rw [outcome_bind_of_ok hget, outcome_render htemplate halive]
  generalize hv : ({ w.load m t ms with
    contexts := (w.load m t ms).contexts.push
      (.ofBlocks ((w.load m t ms).env.globals.insertAll vars) t.blocks.entries)
    frames := (w.load m t ms).frames.push { parent := frame? } } : World) = v
  have hopening : RenderState.opening v.state? v.env.maxDepth t.name? =
      .ok (levelState limit [] start) := by
    subst hv
    show RenderState.opening w.state? w.env.maxDepth t.name? = _
    rw [hstate, hlimit, hmade.name]
    rfl
  have hdelivers : Delivers limit [] { v with state? := some (levelState limit [] start) }
      (expandWithin g.pieces limit start) (((call fuel).enter t.root .environment
        (w.load m t ms).contexts.size (w.load m t ms).frames.size).outcome
          { v with state? := some (levelState limit [] start) }) := by
    subst hv
    exact g.delivers (Nat.zero_add limit) hfuel hstart hloader halive rfl ⟨hmade.name, hmade.root⟩
  generalize expandWithin g.pieces limit start = attempt at hdelivers ⊢
  generalize ho : ((call fuel).enter t.root .environment (w.load m t ms).contexts.size
    (w.load m t ms).frames.size).outcome _ = o at hdelivers
  cases hdelivers with
  | text hsucceeds =>
    rw [outcome_runEntry_of_ok hopening ho]
    exact ⟨_, _, .text hsucceeds⟩
  | refused =>
    rw [outcome_runEntry_of_error hopening ho]
    exact ⟨v, v, .refused⟩

/-- The render of a template made of text and inclusions ends, whatever the graph of inclusions. It
gives the full expansion if no path of inclusions is longer than the limit, and is otherwise refused
along the first path in document order with one inclusion more. -/
theorem render_within_include_limit (g : IncludeGraph) {start : String} (hstart : start ∈ g.names)
    (limit : Nat) {w : World} (hloader : w.env.loader? = some g.loader)
    (hlimit : w.env.maxDepth = limit) (halive : w.env.alive = true) (hstate : w.state? = none)
    {fuel : Nat} (hfuel : 2 * limit + 2 ≤ fuel) (eager : Bool) (vars : List (String × Value))
    (frame? : Option Ref) :
    let result := ((do
      let t ← Eval.getTemplate (.ofText start) eager
      Engine.render (Engine.call fuel) t vars frame? : Eval Value).outcome w).1
    ((∀ path, IncludePath g.pieces start path → path.length ≤ limit + 1) →
      ∃ origin text, Expands g.pieces (g.pieces start) text ∧
        result = .ok (.str (o := origin) text)) ∧
    ((∃ path, IncludePath g.pieces start path ∧ limit + 1 < path.length) →
      ∃ path, (pathsFrom g.pieces (limit + 1) start).head? = some path ∧
        ∃ report : RenderReport, result = .error (.fault (.report (.render report))) ∧
          report.code = .includeDepth ∧ report.template? = path[limit]? ∧
          report.stack = (path.take limit).zipIdx.map fun e => (e.1, (e.2 : Int))) := by
  intro result
  obtain ⟨v, u, hdelivers⟩ := g.render_delivers hstart hloader hlimit halive hstate hfuel eager vars
    frame?
  have hdecides : Decides g.pieces (g.pieces start) (pathsFrom g.pieces (limit + 1) start)
      (expandWithin g.pieces limit start) := decides_expandWithin limit start
  change Delivers limit [] v _ (result, u) at hdelivers
  generalize expandWithin g.pieces limit start = attempt at hdelivers hdecides
  generalize result = answer at hdelivers ⊢
  cases hdelivers with
  | @text text origin _ _ =>
    obtain ⟨hexpands, hnone⟩ := hdecides
    refine ⟨fun _ => ⟨origin, text, hexpands, rfl⟩, ?_⟩
    rintro ⟨path, hpath, hlong⟩
    have := pathsFrom_eq_nil_iff.1 hnone path hpath
    omega
  | @refused path _ =>
    have hfirst : (pathsFrom g.pieces (limit + 1) start).head? = some path := hdecides
    refine ⟨fun hshort => ?_, fun _ => ⟨path, hfirst, _, rfl, rfl, rfl, rfl⟩⟩
    rw [pathsFrom_eq_nil_iff.2 hshort] at hfirst
    cases hfirst

/-- A page that includes its header twice, and then a list that includes the page again. -/
def circularPages : IncludeGraph where
  loader := .dict [ ("page", .root {} [.inclusion {} (.literal {} (.str "head")), .text {} "-",
      .inclusion {} (.literal {} (.str "head")), .inclusion {} (.literal {} (.str "list"))]),
    ("head", .root {} [.output {} [.text {} "H"]]),
    ("list", .root {} [.text {} "L", .inclusion {} (.literal {} (.str "page"))])]
  names := ["page", "head", "list"]
  pieces := fun name =>
    if name = "page" then [.inclusion "head", .text "-", .inclusion "head", .inclusion "list"]
    else if name = "head" then [.text "H"]
    else [.text "L", .inclusion "page"]
  offered := by
    intro name hname
    simp only [mem_cons, not_mem_nil, or_false] at hname
    rcases hname with rfl | rfl | rfl
    · exact ⟨_, _, _, rfl, rfl, by decide⟩
    · exact ⟨_, _, _, rfl, rfl, by decide⟩
    · exact ⟨_, _, _, rfl, rfl, by decide⟩
  proper := by decide
  closed := by decide

/-- With a limit of two the page is refused along its second inclusion of itself, and its header is
rendered. -/
theorem circular_pages_within_limit :
    let w : World := { env := { loader? := some circularPages.loader, maxDepth := 2 } }
    let render (start : String) : Except Halt Value := ((do
      let t ← Eval.getTemplate (.ofText start) false
      Engine.render (Engine.call 6) t [] none : Eval Value).outcome w).1
    (∃ report : RenderReport, render "page" = .error (.fault (.report (.render report))) ∧
      report.code = .includeDepth ∧ report.stack = [("page", 0), ("list", 1)]) ∧
    ∃ origin text, Expands circularPages.pieces [.text "H"] text ∧
      render "head" = .ok (.str (o := origin) text) := by
  intro w render
  have hround : IncludePath circularPages.pieces "page" ["page", "list", "page", "list"] :=
    .step (by decide) (.step (by decide) (.step (by decide) (.here _)))
  constructor
  · obtain ⟨path, hfirst, report, hresult, hcode, -, hstack⟩ :=
      (render_within_include_limit circularPages (show "page" ∈ circularPages.names by decide) 2
        (w := w) rfl rfl rfl rfl (show 2 * 2 + 2 ≤ 6 by decide) false [] none).2
          ⟨_, hround, by decide⟩
    cases hfirst
    exact ⟨report, hresult, hcode, hstack⟩
  · refine (render_within_include_limit circularPages
      (show "head" ∈ circularPages.names by decide) 2
      (w := w) rfl rfl rfl rfl (show 2 * 2 + 2 ≤ 6 by decide) false [] none).1 fun path hpath => ?_
    cases hpath with
    | here => decide
    | step htarget _ => cases htarget

/-- A name with the null character cannot be included: the template is found, and the path of
inclusions is short, but the template cannot be compiled. -/
theorem render_of_null_named_inclusion :
    let pos : Position := {}
    let pieces : String → List Piece := fun name =>
      if name = "a" then [.inclusion "b\x00"] else [.text "x"]
    let loader : Loader := .dict [ ("a", .root pos [.inclusion pos (.literal pos (.str "b\x00"))]),
      ("b\x00", .root pos [.text pos "x"])]
    let run : Eval Value := do
      let t ← Eval.getTemplate (.ofText "a") false
      Engine.render (Engine.call 9) t [] none
    Expands pieces (pieces "a") "x" ∧ pathsFrom pieces 2 "a" = [] ∧
      (match (run.outcome { env := { loader? := some loader } }).1 with
        | .error (.fault f) => some f.message
        | _ => none) = some "Runtime Error: embedded null character\n  Location: a" := by
  intro pos pieces loader run
  refine ⟨?_, rfl, by decide +kernel⟩
  have hx : Expands pieces [.text "x"] ("x" ++ "") := .text .nil
  exact .inclusion (s := "x") (t := "") hx .nil

end Stencil
