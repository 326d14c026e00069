import NetBlueprint.Proofs.Compiler.Forwarding

/-!
Contract: how often a declaration becomes a layer.

A network has one layer for each instance of a declaration, and besides these a second copy of
whatever is still owed when the run ends. Nothing is owed unless the run comes to a module inside
itself: a connection in the body of a module that names the module compiles it ahead although it
is being compiled in its order.

Owns: the layers of a compiled program without templates, branches, inputs and outputs.
-/

namespace NetBlueprint.Compile

variable {name : String} {seed : UInt64} {program : Instruction} {compiled : Compiled}

private theorem compiledAhead_eq_nil_iff {books : Books} (orderly : books.Orderly) :
    books.compiledAhead = [] ↔ books.owed = [] := by
  constructor
  · intro none
    rw [Books.owed, none]
    rfl
  · intro nothing
    cases listed : books.compiledAhead with
    | nil => rfl
    | cons key rest =>
        have member : key ∈ books.compiledAhead := by
          rw [listed]
          exact List.mem_cons_self
        obtain ⟨instruction, headings, registered, unrolled, nonempty⟩ :=
          orderly.waiting key member
        have own := List.flatMap_eq_nil_iff.1 nothing key member
        rw [Books.owedFor, registered, Option.bind_some, unrolled] at own
        exact absurd own nonempty

-- Stated of any state, so that no state of a run is opened for it.
private theorem compiledAhead_books (state : CompileState) :
    state.books.compiledAhead = state.compiledAhead := rfl

private theorem RootOf.compiledAhead_eq_nil {root : Visit}
    (rootOf : RootOf name seed program compiled root) (plain : program.isPlain = true)
    (regular : Regular (program.prescan []) root) : root.after.compiledAhead = [] := by
  have books := books_of_prepare rootOf.prepared
  have inProgress : root.before.aheadInProgress = [] := congrArg Books.aheadInProgress books
  have apart : ∀ below, Visit.Below below root →
      Apart (program.prescan []) root.before below := by
    intro below _ key underway
    rw [inProgress] at underway
    cases underway
  have rootPlain : root.instruction.isPlain = true := by rwa [rootOf.instruction]
  obtain ⟨meets, closes⟩ :=
    rootOf.faithful.meeting _ rootPlain (rootOf.kept plain) regular apart
  rw [List.eq_nil_iff_forall_not_mem]
  intro key member
  obtain ⟨instruction, headings, registered, unrolled, nonempty⟩ :=
    meets.kept.ready.books.waiting key member
  have isClosed : Closed root.after key := by
    have remained := meets.kept.remains registered
    obtain ⟨_, _, offered | isTemplate⟩ := Instruction.registered_of_prescan plain remained
    · rw [← rootOf.instruction] at offered
      rcases Instruction.eq_or_mem_innerOffers offered with same | inner
      · rw [same] at registered offered
        refine closes offered key registered ?_
        rw [inProgress]
        exact List.not_mem_nil
      · exact meets.met instruction inner key registered
    · -- A template stands for no layers, so it is never owed.
      cases instruction with
      | templateDef _ _ _ =>
          cases unrolled
          exact absurd rfl nonempty
      | _ => cases isTemplate
  rcases isClosed with gone | ⟨_, notCompiled, _⟩
  · cases gone.symm.trans registered
  · exact absurd member notCompiled

/-- The layers of a network are those of the instances of its program, and a second copy of every
declaration that waits for being met when the run ends. So there is exactly one layer for each
instance when none waits, and none waits when the run never comes to a module inside itself and
tells every instruction apart from what is registered. -/
theorem layers_once_iff (compiles : compile name seed program = .ok compiled)
    (plain : program.isPlain = true) :
    ∃ root expected, rootVisit? name seed program = some root ∧
      program.unrolled [] = some expected ∧
      compiled.network.headings.Perm
        (expected ++ (finalState name seed program).books.owed) ∧
      (compiled.network.headings.Perm expected ↔
        (finalState name seed program).compiledAhead = []) ∧
      (Regular (program.prescan []) root → compiled.network.headings.Perm expected) := by
  obtain ⟨root, rootOf⟩ := exists_rootOf compiles
  have kept := rootOf.kept plain
  have rootPlain : root.instruction.isPlain = true := by rwa [rootOf.instruction]
  obtain ⟨expected, unrolled, adds⟩ := rootOf.faithful.accountedFor rootPlain kept.ready
  rw [rootOf.instruction] at unrolled
  have books : (finalState name seed program).books = root.after.books := by
    rw [rootOf.final, books_bindAll]
  have headings : compiled.network.headings = root.after.network.headings := by
    rw [Network.headings_eq, rootOf.nodes, ← Network.headings_eq]
  have account : compiled.network.headings.Perm
      (expected ++ (finalState name seed program).books.owed) := by
    rw [List.perm_iff_count]
    intro heading
    have count := adds.count heading
    have startNodes : root.before.network.nodes = [] :=
      (isQuiet_prepare _ _ _ _ _ rootOf.prepared).nodes
    have startOwed : root.before.books.owed = [] := by
      rw [books_of_prepare rootOf.prepared]
      rfl
    rw [startOwed, Network.headings_eq root.before.network, startNodes, List.map_nil,
      List.count_nil] at count
    rw [headings, books, List.count_append]
    omega
  have once_iff : compiled.network.headings.Perm expected ↔
      (finalState name seed program).compiledAhead = [] := by
    have orderly : (finalState name seed program).books.Orderly := by
      rw [books]
      exact adds.ready.books
    rw [← compiledAhead_books, compiledAhead_eq_nil_iff orderly]
    constructor
    · intro once
      have lengths := (once.symm.trans account).length_eq
      rw [List.length_append] at lengths
      exact List.length_eq_zero_iff.1 (by omega)
    · intro nothing
      rwa [nothing, List.append_nil] at account
  refine ⟨root, expected, rootOf.isRoot, unrolled, account, once_iff, fun regular => ?_⟩
  rw [once_iff]
  rw [← compiledAhead_books, books, compiledAhead_books]
  exact rootOf.compiledAhead_eq_nil plain regular

/-- A module whose body connects a layer to the module itself. -/
def selfConnected : Instruction :=
  .program [.moduleDef "m" [] [] [sizedLayer "dense" "x" 1, .connect "x" "m"]]

/-- Such a module is compiled twice: once ahead, while it is compiled in its order. -/
theorem selfConnected_layers_doubled :
    ∃ compiled, compile "net" 0 selfConnected = .ok compiled ∧ selfConnected.isPlain = true ∧
      selfConnected.unrolled [] = some [("x", false), ("m", true)] ∧
      compiled.network.headings =
        [("x", false), ("x", false), ("m", true), ("m", true)] ∧
      ¬ compiled.network.headings.Perm [("x", false), ("m", true)] := by
  have passed : (compile "net" 0 selfConnected).toOption.any (fun compiled =>
      compiled.network.headings ==
        [("x", false), ("x", false), ("m", true), ("m", true)]) = true := by decide +kernel
  obtain ⟨compiled, compiles, headings⟩ := exists_compiled passed
  refine ⟨compiled, compiles, by decide +kernel, by decide, eq_of_beq headings, ?_⟩
  rw [eq_of_beq headings]
  decide

/-- A module is compiled ahead of its declaration, and with it a layer that its body names before
declaring it. -/
def connectedAhead : Instruction :=
  .program [.connect "m" "h1",
    .moduleDef "m" [] [] [.connect "x" "y", sizedLayer "dense" "y" 1, sizedLayer "dense" "x" 1],
    .loop "i" "1" "2" [sizedLayer "dense" "h[i]" 1]]

/-- There is one layer for each of its instances, although they come in another order. -/
theorem connectedAhead_layers_once :
    ∃ compiled, compile "net" 0 connectedAhead = .ok compiled ∧
      compiled.network.headings.Perm
        [("y", false), ("x", false), ("m", true), ("h1", false), ("h2", false)] ∧
      compiled.network.headings ≠
        [("y", false), ("x", false), ("m", true), ("h1", false), ("h2", false)] := by
  have passed : (compile "net" 0 connectedAhead).toOption.any (fun compiled =>
      compiled.network.headings !=
        [("y", false), ("x", false), ("m", true), ("h1", false), ("h2", false)]) = true := by
    decide +kernel
  obtain ⟨compiled, compiles, reordered⟩ := exists_compiled passed
  have nothingWaits : (finalState "net" 0 connectedAhead).compiledAhead = [] := by decide +kernel
  have plain : connectedAhead.isPlain = true := by decide +kernel
  obtain ⟨_, expected, _, unrolled, _, once_iff, _⟩ := layers_once_iff compiles plain
  have isExpected : connectedAhead.unrolled [] =
      some [("y", false), ("x", false), ("m", true), ("h1", false), ("h2", false)] := by decide
  cases isExpected.symm.trans unrolled
  exact ⟨compiled, compiles, once_iff.2 nothingWaits, bne_iff_ne.1 reordered⟩

end NetBlueprint.Compile
