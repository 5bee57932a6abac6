/-
  JasminGen.Proofs.Relocation

  Lowering the same function elsewhere. If two programs have the same structs, the same
  body and the same functions in another order, and no two functions share a name, then
  their symbol tables differ in nothing but the numbers of scopes. So whatever can be
  lowered with the one table can be lowered with the other. If it starts some labels
  later there, then all its labels are later by as many, and nothing else changes.

  Main definitions: `Reordered`, `relocation`, `FunctionDef.actions`. Main results:
  `Reordered.relocated`, `FunctionDef.lower_relocated`.
-/

import JasminGen.Proofs.Labels
import JasminGen.Proofs.Lowering.Coupling
import JasminGen.Proofs.Symbols

namespace JasminGen

-- ============================================================================
-- Tables that agree
-- ============================================================================

namespace SymbolTable

instance (kind : ScopeKind) (name : String) : DecidablePred (Matches kind name) :=
  fun s => inferInstanceAs (Decidable (s.kind = kind ∧ s.name = some name))

/-- The scopes of a kind and name, in order of creation. -/
def matching (table : SymbolTable) (kind : ScopeKind) (name : String) : List Scope :=
  table.scopeList.filter fun s => decide (Matches kind name s)

/-- The last scope of a kind and name is found and can be read. -/
theorem childScope?_last {table : SymbolTable} (hsize : table.scopeList.length ≤ UInt32.size)
    (kind : ScopeKind) (name : String) :
    (table.childScope? kind name = none ∧ (table.matching kind name).getLast? = none) ∨
      ∃ id s, table.childScope? kind name = some id ∧ table.scope id = .ok s ∧
        (table.matching kind name).getLast? = some s := by
  rcases table.childScope?_cases kind name with
    ⟨hnone, hall⟩ | ⟨before, s, after, heq, hs, hafter, hid⟩
  · refine .inl ⟨hnone, ?_⟩
    have hempty : table.matching kind name = [] :=
      List.filter_eq_nil_iff.mpr fun s hmem => by simpa using hall s hmem
    rw [hempty]
    rfl
  · refine .inr ⟨_, s, hid, scope_ofNat heq hsize, ?_⟩
    have hempty : after.filter (fun s => decide (Matches kind name s)) = [] :=
      List.filter_eq_nil_iff.mpr fun s hmem => by simpa using hafter s hmem
    rw [matching, heq, List.filter_append, List.filter_cons_of_pos (by simpa using hs), hempty]
    exact List.getLast?_concat

/-- The type of an expression depends on the functions, the scope that it stands in and the
    root. -/
theorem typeOf_congr {table table' : SymbolTable} {id id' : ScopeId} {s : Scope}
    (hid : table.scope id = .ok s) (hid' : table'.scope id' = .ok s)
    (hroot : table'.scope root = table.scope root)
    (hfunctions : ∀ name, table'.function? name = table.function? name) :
    ∀ e : Expr, table'.typeOf id' e = table.typeOf id e
  | .int _ | .bool _ | .binary _ _ _ | .unary _ _ | .append _ _ | .size _ | .field _ _ => rfl
  | .group inner => typeOf_congr hid hid' hroot hfunctions inner
  | .index list _ =>
      congrArg (fun ty => ty.bind elementTy) (typeOf_congr hid hid' hroot hfunctions list)
  | .call target _ =>
      congrArg (fun ty => ty.bind resultTy) (typeOf_congr hid hid' hroot hfunctions target)
  | .ident name => by
      have hfunction : table'.lookupFunction id' name = table.lookupFunction id name := by
        rw [lookupFunction, lookupFunction, hid, hid', hfunctions name]
      have hvariable : table'.lookupVariable id' name = table.lookupVariable id name := by
        rw [lookupVariable, lookupVariable, hid, hid']
        dsimp only
        cases s.find? name with
        | some ty => rfl
        | none =>
            dsimp only [parent?]
            cases s.kind with
            | root => rfl
            | _ =>
                dsimp only
                rw [hroot]
      change table'.typeOfName id' name = table.typeOfName id name
      rw [typeOfName, typeOfName, hfunction, hvariable]

end SymbolTable

-- ============================================================================
-- Programs with reordered functions
-- ============================================================================

/-- The programs have the same functions, in any order, and are the same otherwise. No two
    functions share a name, and there are not more scopes than numbers for them. -/
structure Reordered (program program' : Program) : Prop where
  structs_eq : program'.structs = program.structs
  body_eq : program'.body = program.body
  functions_perm : program.functions.Perm program'.functions
  distinct : (program.functions.map FunctionDef.name).Nodup
  scopes_le : program.structs.length + program.functions.length + 2 ≤ UInt32.size

namespace Reordered

variable {program program' : Program}

theorem left (h : Reordered program program') : Reordered program program :=
  ⟨rfl, rfl, .refl _, h.distinct, h.scopes_le⟩

theorem symm (h : Reordered program program') : Reordered program' program where
  structs_eq := h.structs_eq.symm
  body_eq := h.body_eq.symm
  functions_perm := h.functions_perm.symm
  distinct := (h.functions_perm.map FunctionDef.name).nodup_iff.mp h.distinct
  scopes_le := by
    rw [h.structs_eq, ← h.functions_perm.length_eq]
    exact h.scopes_le

open SymbolTable

theorem function?_eq (h : Reordered program program') (name : String) :
    (ofProgram program').function? name = (ofProgram program).function? name := by
  by_cases hname : name ∈ program.functions.map FunctionDef.name
  · obtain ⟨fn, hfn, rfl⟩ := List.mem_map.mp hname
    rw [SymbolTable.function?_eq h.distinct hfn,
      SymbolTable.function?_eq h.symm.distinct (h.functions_perm.mem_iff.mp hfn)]
  · have hname' : name ∉ program'.functions.map FunctionDef.name := by
      rwa [← (h.functions_perm.map FunctionDef.name).mem_iff]
    rw [isSome_function?_ofProgram, Option.not_isSome_iff_eq_none] at hname hname'
    rw [hname, hname']

theorem struct?_eq (h : Reordered program program') (name : String) :
    (ofProgram program').struct? name = (ofProgram program).struct? name := by
  rw [struct?, struct?, structs_ofProgram, structs_ofProgram, h.structs_eq]

/-- There is at most one function of each name, so its place does not matter. -/
theorem matching_eq (h : Reordered program program') (kind : ScopeKind) (name : String) :
    (ofProgram program').matching kind name = (ofProgram program).matching kind name := by
  have hfunctions : (program'.functions.map FunctionDef.scope).filter
        (fun s => decide (Matches kind name s)) =
      (program.functions.map FunctionDef.scope).filter fun s => decide (Matches kind name s) := by
    have hany : ∀ scopes : List Scope, scopes.Pairwise fun _ _ => True := fun scopes =>
      List.pairwise_of_forall fun _ _ => trivial
    refine List.Perm.eq_of_pairwise ?_ (hany _) (hany _)
      ((h.functions_perm.symm.map FunctionDef.scope).filter _)
    intro a b ha hb _ _
    simp only [List.mem_filter, List.mem_map, decide_eq_true_eq] at ha hb
    obtain ⟨⟨fn, hfn, rfl⟩, -, hname⟩ := ha
    obtain ⟨⟨fn', hfn', rfl⟩, -, hname'⟩ := hb
    have hsame : fn.name = fn'.name := Option.some.inj (hname.trans hname'.symm)
    rw [List.inj_on_of_nodup_map h.distinct (h.functions_perm.mem_iff.mpr hfn) hfn' hsame]
  have hentry : program'.entryScope = program.entryScope := by
    rw [Program.entryScope, Program.entryScope, h.body_eq]
  rw [matching, matching, scopes_ofProgram, scopes_ofProgram]
  simp only [List.filter_cons, List.filter_append, hfunctions, h.structs_eq, hentry]

/-- A kind and name stand for the same scope in both tables, or for none. -/
theorem childScope?_agree (h : Reordered program program') (kind : ScopeKind) (name : String) :
    ((ofProgram program).childScope? kind name = none ∧
      (ofProgram program').childScope? kind name = none) ∨
    ∃ id id' s, (ofProgram program).childScope? kind name = some id ∧
      (ofProgram program').childScope? kind name = some id' ∧
      (ofProgram program).scope id = .ok s ∧ (ofProgram program').scope id' = .ok s := by
  have hsize : ∀ {p p' : Program}, Reordered p p' →
      (ofProgram p).scopeList.length ≤ UInt32.size := by
    intro p p' hp
    rw [length_scopes_ofProgram]
    exact hp.scopes_le
  have hlast := h.matching_eq kind name
  rcases childScope?_last (hsize h) kind name with ⟨hnone, hempty⟩ | ⟨id, s, hid, hs, hfound⟩ <;>
    rcases childScope?_last (hsize h.symm) kind name with
      ⟨hnone', hempty'⟩ | ⟨id', s', hid', hs', hfound'⟩
  · exact .inl ⟨hnone, hnone'⟩
  · rw [hlast, hempty] at hfound'
    cases hfound'
  · rw [hlast, hfound] at hempty'
    cases hempty'
  · rw [hlast, hfound] at hfound'
    cases hfound'
    exact .inr ⟨id, id', s, hid, hid', hs, hs'⟩

end Reordered

-- ============================================================================
-- Lowering from another label
-- ============================================================================

/-- The frames are inside of one scope, which has a number in each of the tables. -/
def SameScope (program program' : Program) (f f' : Frame) : Prop :=
  ∃ id id' s, f.entered = [id] ∧ f'.entered = [id'] ∧
    (SymbolTable.ofProgram program).scope id = .ok s ∧
    (SymbolTable.ofProgram program').scope id' = .ok s

theorem SameScope.activeScope {program program' : Program} {f f' : Frame}
    (h : SameScope program program' f f') :
    ∃ s, (SymbolTable.ofProgram program).scope f.activeScope = .ok s ∧
      (SymbolTable.ofProgram program').scope f'.activeScope = .ok s := by
  obtain ⟨id, id', s, hentered, hentered', hs, hs'⟩ := h
  rw [Frame.activeScope, Frame.activeScope, hentered, hentered']
  exact ⟨s, hs, hs'⟩

theorem SameScope.agree {program program' : Program} {f f' : Frame}
    (h : SameScope program program' f f') (Fails : Failure → Failure → Prop) :
    Agree Fails (Failure.ofFault ((SymbolTable.ofProgram program).scope f.activeScope))
      (Failure.ofFault ((SymbolTable.ofProgram program').scope f'.activeScope)) := by
  obtain ⟨s, hs, hs'⟩ := h.activeScope
  rw [hs, hs']
  exact .ok s

/-- The frames are `k` labels apart. -/
def Later (k : Nat) (f f' : Frame) : Prop :=
  f'.nextLabel = f.nextLabel.advance k

/-- Lowering with the table of either program, where the second run is `k` labels later. -/
def relocation {program program' : Program} (h : Reordered program program') (options : Options)
    (k : Nat) : ProgramCoupling where
  left := .ofProgram program options
  right := .ofProgram program' options
  relabel l := l.advance k
  Meet _ _ := True
  Outside f f' := f.entered = [] ∧ f'.entered = [] ∧ Later k f f'
  Inside f f' := SameScope program program' f f' ∧ Later k f f'
  InMethod f f' := SameScope program program' f f' ∧ Later k f f' ∧ f'.slots = f.slots
  Asks rs rs' := rs'.map Request.action =
    (rs.map Request.action).map (Action.relabel fun l => l.advance k)
  Fails _ _ := True
  verbose_eq := rfl
  colored_eq := rfl
  strip_eq := rfl
  function?_eq := h.function?_eq
  struct?_eq := h.struct?_eq
  scope_agree hf := hf.1.agree _
  oracle_agree := by
    rintro f f' ⟨hscope, -, -⟩ e
    obtain ⟨s, hs, hs'⟩ := hscope.activeScope
    have hroot : (SymbolTable.ofProgram program').scope SymbolTable.root =
        (SymbolTable.ofProgram program).scope SymbolTable.root :=
      SymbolTable.scope_root.trans SymbolTable.scope_root.symm
    have htype : (Setting.ofProgram program' options).oracle f'.activeScope e =
        (Setting.ofProgram program options).oracle f.activeScope e :=
      SymbolTable.typeOf_congr hs hs' hroot h.function?_eq e
    rw [htype]
    exact .refl (fun _ => trivial) _
  meet _ := trivial
  slots_eq hf := hf.2.2
  extended := fun ⟨hscope, hlater, _⟩ _ _ => ⟨hscope, hlater, rfl⟩
  label_eq hf := hf.2.1
  labelled := by
    rintro f f' ⟨hscope, hlater, hslots⟩
    refine ⟨hscope, ?_, hslots⟩
    change f'.nextLabel.next = f.nextLabel.next.advance k
    rw [show f'.nextLabel = f.nextLabel.advance k from hlater, Label.next_eq_advance,
      Label.next_eq_advance, Label.advance_advance, Label.advance_advance, Nat.add_comm]
  asks_nil := rfl
  asks_append := by
    intro rs rs' more more' hrs hmore
    simp only [List.map_append, hrs, hmore]
  asks_code _ _ := rfl
  asks_comment := by
    intro f f' _ s
    refine s.comment_relabel _ ?_ f f'
    rfl
  fails_error _ := trivial
  fails_exhausted := trivial
  meet_outside _ := trivial
  meet_inside _ := trivial
  enter := by
    rintro f f' ⟨hentered, hentered', hlater⟩ kind name
    rcases h.childScope?_agree kind name with hnone | ⟨id, id', s, hid, hid', hs, hs'⟩
    · exact .inl hnone
    · refine .inr ⟨id, id', hid, hid', ?_, hlater⟩
      rw [hentered, hentered']
      exact ⟨id, id', s, rfl, rfl, hs, hs'⟩
  scope_inside hf := hf.1.agree _
  begin := fun ⟨hscope, hlater⟩ _ _ _ => ⟨hscope, hlater, rfl⟩
  leave := by
    rintro f f' ⟨⟨id, id', -, hentered, hentered', -, -⟩, hlater, -⟩
    exact ⟨id, id', [], [], hentered, hentered', rfl, rfl, hlater⟩
  asks_open _ _ := rfl
  asks_close _ := rfl
  asks_report _ _ := rfl

namespace Reordered

variable {program program' : Program} {options : Options} {m : Gen Unit} {k : Nat} {f f' : Frame}

/-- What can be lowered with the one table can be lowered with the other. -/
theorem relocated (h : Reordered program program')
    (hm : (relocation h options k).Pairs (relocation h options k).Outside m m
      (relocation h options k).Outside)
    (hf : f.entered = []) (hf' : f'.entered = []) (hlater : Later k f f') {acts : List Action}
    {g : Frame} (hemits : Emits m (.ofProgram program options) f () acts g) :
    ∃ g', Emits m (.ofProgram program' options) f' ()
        (acts.map (Action.relabel fun l => l.advance k)) g' ∧
      g.entered = [] ∧ g'.entered = [] ∧ Later k g g' := by
  obtain ⟨hresult, rfl, rfl⟩ := hemits
  obtain ⟨hasks, ⟨_, _, -, hresult', -, hg, hg', hend⟩ | ⟨failure, _, herror, -⟩⟩ :=
    hm f f' ⟨hf, hf', hlater⟩
  · exact ⟨_, ⟨hresult', hasks, rfl⟩, hg, hg', hend⟩
  · rw [show (m (.ofProgram program options) f).result = _ from herror] at hresult
    cases hresult

theorem relocated_iff (h : Reordered program program')
    (hm : (relocation h options k).Pairs (relocation h options k).Outside m m
      (relocation h options k).Outside)
    (hf : f.entered = []) (hf' : f'.entered = []) (hlater : Later k f f') :
    (m (.ofProgram program options) f).result = .ok () ↔
      (m (.ofProgram program' options) f').result = .ok () := by
  obtain ⟨-, ⟨_, _, hok, hok', -⟩ | ⟨failure, failure', herror, herror', -⟩⟩ :=
    hm f f' ⟨hf, hf', hlater⟩
  · exact iff_of_true hok hok'
  · change (m (.ofProgram program options) f).result = _ at herror
    change (m (.ofProgram program' options) f').result = _ at herror'
    rw [herror, herror']
    simp

end Reordered

-- ============================================================================
-- Functions
-- ============================================================================

namespace FunctionDef

/-- What a function asks for if it is the first thing to be lowered. -/
def actions (fn : FunctionDef) (S : Setting) : List Action :=
  (fn.lower S .initial).requests.map Request.action

/-- The function can be lowered. -/
def Lowers (fn : FunctionDef) (S : Setting) : Prop :=
  (fn.lower S .initial).result = .ok ()

def labelCount (fn : FunctionDef) : Nat :=
  Stmt.labelCountAll fn.body

/-- What a function asks for if the labels before number `k` are taken. -/
def actionsFrom (fn : FunctionDef) (S : Setting) (k : Nat) : List Action :=
  (fn.actions S).map (Action.relabel fun l => l.advance k)

/-- What each of some functions asks for if they are lowered in a row and the labels before
    number `k` are taken. -/
def actionsInRow (S : Setting) : Nat → List FunctionDef → List (FunctionDef × List Action)
  | _, [] => []
  | k, fn :: rest => (fn, fn.actionsFrom S k) :: actionsInRow S (k + fn.labelCount) rest

variable {program program' : Program} {options : Options} {fn : FunctionDef} {k : Nat}
  {f f' : Frame}

theorem Lowers.emits {S : Setting} (h : fn.Lowers S) :
    Emits fn.lower S .initial () (fn.actions S) (fn.lower S .initial).frame :=
  ⟨h, rfl, rfl⟩

/-- A function is lowered in the same way with either table and after any labels. -/
theorem lower_relocated (h : Reordered program program')
    (hlowers : fn.Lowers (.ofProgram program options)) (hf : f.entered = [])
    (hlabel : f.nextLabel = (⟨0⟩ : Label).advance k) :
    ∃ g, Emits fn.lower (.ofProgram program' options) f ()
        (fn.actionsFrom (.ofProgram program options) k) g ∧
      g.entered = [] ∧ g.nextLabel = (⟨0⟩ : Label).advance (k + fn.labelCount) := by
  have hstart : Later k .initial f := hlabel
  obtain ⟨m, hm, -⟩ := lower_method rfl hlowers.emits
  obtain ⟨g, hg, -, hentered, hend⟩ := h.relocated ((relocation h options k).function_lower fn)
    rfl hf hstart hlowers.emits
  refine ⟨g, hg, hentered, ?_⟩
  rw [show g.nextLabel = _ from hend, hm.labelled.1, Label.advance_advance, Nat.add_comm k]
  rfl

theorem lowers_iff (h : Reordered program program') (hf : f.entered = [])
    (hlabel : f.nextLabel = (⟨0⟩ : Label).advance k) :
    fn.Lowers (.ofProgram program options) ↔
      (fn.lower (.ofProgram program' options) f).result = .ok () :=
  h.relocated_iff ((relocation h options k).function_lower fn) rfl hf hlabel

theorem lowerAll_relocated (h : Reordered program program') :
    ∀ (fns : List FunctionDef) {k : Nat} {f : Frame},
      (∀ fn ∈ fns, fn.Lowers (.ofProgram program options)) → f.entered = [] →
      f.nextLabel = (⟨0⟩ : Label).advance k →
      ∃ g, Emits (lowerAll fns) (.ofProgram program' options) f ()
        ((actionsInRow (.ofProgram program options) k fns).flatMap Prod.snd) g
  | [], k, f, _, _, _ => ⟨f, Gen.emits_pure.mpr ⟨rfl, rfl, rfl⟩⟩
  | fn :: rest, k, f, hlowers, hf, hlabel => by
      obtain ⟨hfn, hrest⟩ := List.forall_mem_cons.mp hlowers
      obtain ⟨f₁, hfirst, hf₁, hlabel₁⟩ := lower_relocated h hfn hf hlabel
      obtain ⟨g, hall⟩ := lowerAll_relocated h rest hrest hf₁ hlabel₁
      refine ⟨g, ?_⟩
      rw [lowerAll, Gen.emits_bind]
      exact ⟨(), _, f₁, _, hfirst, rfl, hall⟩

theorem lowers_of_lowerAll (h : Reordered program program') :
    ∀ (fns : List FunctionDef) {k : Nat} {f g : Frame} {acts : List Action},
      f.entered = [] → f.nextLabel = (⟨0⟩ : Label).advance k →
      Emits (lowerAll fns) (.ofProgram program' options) f () acts g →
      ∀ fn ∈ fns, fn.Lowers (.ofProgram program options)
  | [], _, _, _, _, _, _, _ => by simp
  | fn :: rest, k, f, g, acts, hf, hlabel, hall => by
      rw [lowerAll, Gen.emits_bind] at hall
      obtain ⟨_, first, f₁, others, hfirst, -, hothers⟩ := hall
      obtain ⟨m, hm, -, hf₁, -⟩ := lower_method hf hfirst
      have hlabel₁ : f₁.nextLabel = (⟨0⟩ : Label).advance (k + fn.labelCount) := by
        rw [hm.labelled.1, hlabel, Label.advance_advance]
        rfl
      refine List.forall_mem_cons.mpr ⟨(lowers_iff h hf hlabel).mpr hfirst.1, ?_⟩
      exact lowers_of_lowerAll h rest hf₁ hlabel₁ hothers

end FunctionDef

end JasminGen
