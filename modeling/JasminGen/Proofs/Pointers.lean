/-
  JasminGen.Proofs.Pointers

  What function pointers call. A pointer holds a receiver of the class `Main` and the name
  of a function. When it is called, the methods that the class declares are searched for
  the first one with that name and as many parameters as there are arguments, and the
  order in which a class lists its methods is not known. So a pointer is sure to call its
  function if no other method has that name and that number of parameters. The static
  entry `main` is such another method for a function `main` with one parameter.

  Main definitions: `MethodHead`, `Program.heads`, `FunctionDef.Clashes`. Main results:
  `MethodsLowered.signatures`, `Program.filter_fits`, `pointers_of_run`.
-/

import JasminGen.Compile
import JasminGen.Proofs.Memory
import JasminGen.Proofs.Symbols

namespace JasminGen

-- ============================================================================
-- Heads of methods
-- ============================================================================

/-- The head of a method, with the descriptors of its parameters and its result. -/
structure MethodHead where
  isStatic : Bool
  name : String
  params : List String
  result : String
  deriving DecidableEq

namespace MethodHead

/-- The head as it is written. -/
def text (h : MethodHead) : String :=
  "public " ++ (if h.isStatic then "static " else "") ++ h.name ++
    ("(" ++ String.join h.params ++ ")" ++ h.result)

/-- Names of constructors and initialisers, which a class does not list among the methods
    it declares. -/
def hiddenNames : List String := ["<init>", "<clinit>"]

def isDeclared (h : MethodHead) : Bool :=
  h.name ∉ hiddenNames

/-- Whether a pointer with this name can call the method with so many arguments. -/
def fits (name : String) (count : Nat) (h : MethodHead) : Bool :=
  h.name == name && h.params.length == count

/-- The method that a pointer calls, if a class lists its methods in this order. -/
def resolve (listing : List MethodHead) (name : String) (count : Nat) : Option MethodHead :=
  listing.find? (fits name count)

end MethodHead

/-- The head of a function's method. -/
def FunctionDef.head (f : FunctionDef) : MethodHead :=
  ⟨false, f.name, f.params.map fun b => b.ty.descriptor, f.result.descriptor⟩

/-- The head of the method that an origin is lowered to. -/
def Origin.head : Origin → MethodHead
  | .constructor _ | .body _ => ⟨false, "<init>", [], "V"⟩
  | .entry => ⟨true, "main", ["[Ljava/lang/String;"], "V"⟩
  | .function f => f.head

/-- The heads of the methods of the class `Main`, in order. -/
def Program.heads (program : Program) : List MethodHead :=
  (Origin.entry :: .body program.body :: program.functions.map Origin.function).map Origin.head

/-- A pointer to the function may not call it: the function's method is not listed, or the
    static entry has the same name and number of parameters. -/
def FunctionDef.Clashes (f : FunctionDef) : Prop :=
  f.name ∈ MethodHead.hiddenNames ∨ (f.name = "main" ∧ f.params.length = 1)

instance (f : FunctionDef) : Decidable f.Clashes :=
  inferInstanceAs (Decidable (_ ∨ _))

variable {S : Setting}

/-- The head of a method as it is lowered, if functions have their own signatures. -/
theorem MethodLowered.signature_eq {o : Origin} {n n' : Label} {m : LoweredMethod}
    (h : MethodLowered S o n m n')
    (hown : ∀ f, o = .function f → S.symbols.function? f.name = some f.signature) :
    m.signature = o.head.text := by
  cases h with
  | constructor | body | entry => rfl
  | @function f id signature _ _ _ _ _ hlookup =>
      have hfound := SymbolTable.function?_of_lookup hlookup
      rw [hown f rfl] at hfound
      obtain rfl := Option.some.inj hfound
      change "public " ++ f.name ++ f.signature.descriptor = "public " ++ "" ++ f.name ++ _
      rw [String.append_empty, Signature.descriptor, methodDescriptor, Signature.paramTypes,
        List.map_map]
      rfl

theorem MethodsLowered.signatures {os : List Origin} {n n' : Label} {ms : List LoweredMethod}
    (h : MethodsLowered S os n ms n')
    (hown : ∀ f, .function f ∈ os → S.symbols.function? f.name = some f.signature) :
    ms.map LoweredMethod.signature = (os.map Origin.head).map MethodHead.text := by
  induction h with
  | nil => rfl
  | cons hm _ _ ih =>
      have hhead := hm.signature_eq fun f hf => hown f (hf ▸ List.mem_cons_self)
      rw [List.map_cons, hhead, ih fun f hf => hown f (List.mem_cons_of_mem _ hf)]
      rfl

-- ============================================================================
-- Captured names
-- ============================================================================

/-- Every text that is pushed is the name of a function. -/
def CapturesFunctions (S : Setting) (code : List Code) : Prop :=
  ∀ name, .instr (.ldcText name) ∈ code → (S.symbols.function? name).isSome

section Captures

@[simp] theorem ArithOp.instr_ne_ldcText (op : ArithOp) (text : String) :
    Instr.ldcText text ≠ op.instr := by
  cases op <;> simp [ArithOp.instr]

@[simp] theorem LogicOp.decided_ne_ldcText (op : LogicOp) (text : String) :
    Instr.ldcText text ≠ op.decided := by
  cases op <;> simp [LogicOp.decided]

@[simp] theorem narrowing_ne_ldcText (ty : Ty) (text : String) :
    Instr.ldcText text ≠ narrowing ty := by
  unfold narrowing
  split <;> simp

theorem dropping_ne_ldcText (ty : Ty) (text : String) : Instr.ldcText text ∉ dropping ty := by
  unfold dropping
  split <;> simp

theorem ZeroCode.not_ldcText {id : ScopeId} {ty : Ty} {is : List Instr} (h : ZeroCode S id ty is)
    (text : String) : Instr.ldcText text ∉ is := by
  cases h <;> simp

theorem ExprLowered.captures {t : ExprTask} {f f' : Frame} {parts : List Fragment}
    (h : ExprLowered S t f parts f') : CapturesFunctions S (Fragment.codeAll parts) := by
  induction h with
  | function hfound =>
      intro name hname
      simp at hname
      rw [hname, SymbolTable.function?_of_lookup hfound]
      rfl
  | bool =>
      intro name hname
      split at hname <;> simp at hname
  | _ => simp_all [CapturesFunctions, conditionParts, or_imp]

theorem StmtLowered.captures {t : StmtTask} {f f' : Frame} {parts : List Fragment}
    (h : StmtLowered S t f parts f') : CapturesFunctions S (Fragment.codeAll parts) := by
  induction h with
  | declare he | assign he | append he | size he | display _ _ _ he =>
      have hcaptures := he.captures
      simp_all [CapturesFunctions]
  | declareZero hzero =>
      have hnone := hzero.not_ldcText
      simp_all [CapturesFunctions]
  | @call _ _ _ _ _ ty _ he =>
      have hcaptures := he.captures
      have hnone := dropping_ne_ldcText ty
      simp_all [CapturesFunctions]
  | @retValue _ _ _ _ ty _ he =>
      have hcaptures := he.captures
      cases hvoid : ty.isVoid <;> simp_all [CapturesFunctions]
  | cond he | loop _ he =>
      have hcaptures := he.captures
      simp_all [CapturesFunctions, or_imp]
  | _ => simp_all [CapturesFunctions, or_imp]

theorem FieldsLowered.captures {className : String} {fields : List FieldDef} {f f' : Frame}
    {parts : List Fragment} (h : FieldsLowered S className fields f parts f') :
    CapturesFunctions S (Fragment.codeAll parts) := by
  induction h with
  | nil => simp [CapturesFunctions]
  | cons hi _ ih =>
      cases hi with
      | value he =>
          have hcaptures := he.captures
          simp_all [CapturesFunctions, or_imp]
      | null => simp_all [CapturesFunctions]
      | zero _ hzero =>
          have hnone := hzero.not_ldcText
          simp_all [CapturesFunctions]

theorem MethodLowered.captures {o : Origin} {n n' : Label} {m : LoweredMethod}
    (h : MethodLowered S o n m n') : CapturesFunctions S m.code.body := by
  cases h with
  | constructor _ hfields =>
      have hcaptures := hfields.captures
      simpa [CapturesFunctions, LoweredMethod.code, superParts] using hcaptures
  | entry => simp [CapturesFunctions, LoweredMethod.code, entryInstrs]
  | body _ hbody =>
      have hcaptures := hbody.captures
      simpa [CapturesFunctions, LoweredMethod.code, superParts] using hcaptures
  | @function _ _ signature _ _ _ _ _ _ _ hbody =>
      have hcaptures := hbody.captures
      cases hvoid : signature.result.isVoid <;>
        simpa [CapturesFunctions, LoweredMethod.code, hvoid] using hcaptures

theorem MethodsLowered.captures {os : List Origin} {n n' : Label} {ms : List LoweredMethod}
    (h : MethodsLowered S os n ms n') : ∀ m ∈ ms, CapturesFunctions S m.code.body := by
  induction h with
  | nil => simp
  | cons hm _ _ ih => exact List.forall_mem_cons.mpr ⟨hm.captures, ih⟩

end Captures

/-- Every instruction of code stands in one of its methods. -/
theorem Consists.mem_instr {codes : List Code} {ms : List MethodCode} (h : Consists codes ms)
    {i : Instr} (hi : .instr i ∈ codes) : ∃ m ∈ ms, .instr i ∈ m.body := by
  induction h with
  | nil => cases hi
  | classHeader _ ih | field _ ih | entry _ ih =>
      simp only [List.mem_cons, reduceCtorEq, false_or] at hi
      obtain ⟨m, hm, hbody⟩ := ih hi
      exact ⟨m, by simp [hm], hbody⟩
  | method _ _ ih =>
      simp only [List.mem_cons, List.mem_append, reduceCtorEq, false_or] at hi
      rcases hi with hi | hi
      · exact ⟨_, List.mem_cons_self, hi⟩
      · obtain ⟨m, hm, hbody⟩ := ih hi
        exact ⟨m, List.mem_cons_of_mem _ hm, hbody⟩

-- ============================================================================
-- Candidates
-- ============================================================================

/-- Functions with distinct names are told apart by their names. -/
theorem FunctionDef.filter_name {functions : List FunctionDef}
    (hdistinct : (functions.map FunctionDef.name).Nodup) {f : FunctionDef} (hf : f ∈ functions) :
    functions.filter (fun g => g.name == f.name) = [f] := by
  induction functions with
  | nil => cases hf
  | cons g rest ih =>
      rw [List.map_cons, List.nodup_cons] at hdistinct
      obtain ⟨hg, hrest⟩ := hdistinct
      rcases List.mem_cons.mp hf with rfl | hf
      · have hnone : rest.filter (fun h => h.name == f.name) = [] := by
          rw [List.filter_eq_nil_iff]
          intro h hh hname
          exact hg (List.mem_map.mpr ⟨h, hh, by simpa using hname⟩)
        rw [List.filter_cons_of_pos (by simp), hnone]
      · have hne : g.name ≠ f.name := fun heq => hg (heq ▸ List.mem_map_of_mem hf)
        rw [List.filter_cons_of_neg (by simpa using hne), ih hrest hf]

/-- Of the methods of functions, only its own fits a function. -/
theorem FunctionDef.filter_fits {functions : List FunctionDef}
    (hdistinct : (functions.map FunctionDef.name).Nodup) {f : FunctionDef} (hf : f ∈ functions) :
    (functions.map FunctionDef.head).filter (MethodHead.fits f.name f.params.length) =
      [f.head] := by
  have hfits : functions.filter (MethodHead.fits f.name f.params.length ∘ FunctionDef.head) =
      (functions.filter fun g => g.name == f.name).filter
        fun g => g.params.length == f.params.length := by
    rw [List.filter_filter]
    apply List.filter_congr
    intro g _
    simp [MethodHead.fits, FunctionDef.head, Bool.and_comm]
  rw [List.filter_map, hfits, filter_name hdistinct hf]
  simp

/-- The methods that fit a function: its own if it is listed, and the static entry if it has
    the same name and number of parameters. -/
theorem Program.filter_fits {program : Program}
    (hdistinct : (program.functions.map FunctionDef.name).Nodup) {f : FunctionDef}
    (hf : f ∈ program.functions) :
    (program.heads.filter MethodHead.isDeclared).filter
        (MethodHead.fits f.name f.params.length) =
      (if f.name = "main" ∧ f.params.length = 1 then [Origin.entry.head] else []) ++
        if f.name ∈ MethodHead.hiddenNames then [] else [f.head] := by
  have hconstructor : ¬ (Origin.body program.body).head.isDeclared = true := by
    simp [Origin.head, MethodHead.isDeclared, MethodHead.hiddenNames]
  have hheads : program.heads.filter MethodHead.isDeclared =
      Origin.entry.head :: (program.functions.map FunctionDef.head).filter
        MethodHead.isDeclared := by
    rw [heads, List.map_cons, List.map_cons, List.map_map,
      List.filter_cons_of_pos (by decide), List.filter_cons_of_neg hconstructor]
    rfl
  have hown : ((program.functions.map FunctionDef.head).filter MethodHead.isDeclared).filter
      (MethodHead.fits f.name f.params.length) =
        if f.name ∈ MethodHead.hiddenNames then [] else [f.head] := by
    rw [List.filter_comm, FunctionDef.filter_fits hdistinct hf]
    by_cases hhidden : f.name ∈ MethodHead.hiddenNames <;>
      simp [MethodHead.isDeclared, FunctionDef.head, hhidden]
  have hentry : Origin.entry.head.fits f.name f.params.length ↔
      f.name = "main" ∧ f.params.length = 1 := by
    simp only [Origin.head, MethodHead.fits, Bool.and_eq_true, beq_iff_eq, List.length_singleton]
    exact and_congr eq_comm eq_comm
  rw [hheads, List.filter_cons, hown]
  by_cases hmain : f.name = "main" ∧ f.params.length = 1
  · rw [if_pos (hentry.mpr hmain), if_pos hmain, List.singleton_append]
  · rw [if_neg (mt hentry.mp hmain), if_neg hmain, List.nil_append]

/-- The own method of a function is the only one that fits it, unless the function
    clashes. -/
theorem Program.filter_fits_iff {program : Program}
    (hdistinct : (program.functions.map FunctionDef.name).Nodup) {f : FunctionDef}
    (hf : f ∈ program.functions) {listing : List MethodHead}
    (hlisting : listing.Perm (program.heads.filter MethodHead.isDeclared)) :
    listing.filter (MethodHead.fits f.name f.params.length) = [f.head] ↔ ¬ f.Clashes := by
  have hperm := hlisting.filter (MethodHead.fits f.name f.params.length)
  rw [filter_fits hdistinct hf] at hperm
  have hentry : Origin.entry.head ≠ f.head := by
    intro heq
    cases congrArg MethodHead.isStatic heq
  rw [FunctionDef.Clashes, not_or]
  constructor
  · intro hone
    rw [hone] at hperm
    have hlist := List.singleton_perm.mp hperm
    refine ⟨?_, ?_⟩
    · intro hhidden
      rw [if_pos hhidden, List.append_nil] at hlist
      split at hlist
      · exact hentry (List.cons.inj hlist).1.symm
      · cases hlist
    · intro hmain
      rw [if_pos hmain, List.singleton_append] at hlist
      exact hentry (List.cons.inj hlist).1.symm
  · rintro ⟨hlisted, hmain⟩
    rw [if_neg hmain, if_neg hlisted, List.nil_append] at hperm
    exact List.perm_singleton.mp hperm

-- ============================================================================
-- Runs
-- ============================================================================

/-- The code of the entry class is written inside of its unit. -/
theorem EntryActions.codesOf_inside {body : List Stmt} {functions : List FunctionDef}
    {f f' : Frame} {acts : List Action} (e : EntryActions S body functions f acts f') :
    codesOf e.inside = codesOf acts := by
  rw [congrArg codesOf e.acts_eq]
  simp [e.before_reports.codesOf]

/-- After a run, the unit of the class `Main` has the methods that the program's functions
    ask for, besides the static entry and the constructor, and a pointer never holds
    anything but the name of a function. In whatever order the class lists its methods, the
    only one that fits a function is its own, and pointers call it, unless the function
    clashes. -/
theorem pointers_of_run (program : Program) (options : Options) (memory : Memory)
    (hdistinct : (program.functions.map FunctionDef.name).Nodup)
    (hrun : (generate (.ofProgram program options) program memory).1 = .ok ()) :
    (∃ inside, (generate (.ofProgram program options) program memory).2.output.sink.unit?
        entryClass = some (writtenBy inside) ∧
      (methods (codesOf inside)).map MethodCode.signature =
        program.heads.map MethodHead.text) ∧
    (∀ name, .instr (.ldcText name) ∈ program.codes (.ofProgram program options) →
      ∃ f ∈ program.functions, f.name = name) ∧
    ∀ f ∈ program.functions, ∀ listing : List MethodHead,
      listing.Perm (program.heads.filter MethodHead.isDeclared) →
      (listing.filter (MethodHead.fits f.name f.params.length) = [f.head] ↔ ¬ f.Clashes) ∧
      (¬ f.Clashes → MethodHead.resolve listing f.name f.params.length = some f.head) := by
  refine ⟨?_, ?_, ?_⟩
  · obtain ⟨structActs, entryActs, f₁, f', -, e, hunit⟩ := generate_memory_entry hrun
    obtain ⟨ms, hms, hcodes, -⟩ := e.lowered
    refine ⟨e.inside, hunit, ?_⟩
    rw [e.codesOf_inside, hcodes.methods_eq, List.map_map]
    refine hms.signatures ?_
    intro f hf
    have hmem : f ∈ program.functions := by simpa using hf
    exact SymbolTable.function?_eq hdistinct hmem
  · intro name hname
    obtain ⟨ms, hms, hcodes, -⟩ := Program.lower_methods (generate_emits hrun)
    obtain ⟨m, hm, hbody⟩ := hcodes.mem_instr hname
    obtain ⟨lowered, hlowered, rfl⟩ := List.mem_map.mp hm
    have hfound := hms.captures lowered hlowered name hbody
    have hfunction := (SymbolTable.isSome_function?_ofProgram program name).mpr hfound
    obtain ⟨f, hf, hfname⟩ := List.mem_map.mp hfunction
    exact ⟨f, hf, hfname⟩
  · intro f hf listing hlisting
    have honly := Program.filter_fits_iff hdistinct hf hlisting
    refine ⟨honly, ?_⟩
    intro hclear
    rw [MethodHead.resolve, ← List.head?_filter, honly.mpr hclear]
    rfl

/-- A function with the name of the static entry and the given parameters. -/
def namesake (params : List Binding) : FunctionDef :=
  ⟨"main", params, .void, [.display (.int 1)]⟩

/-- A program that calls such a function. -/
def callingNamesake (params : List Binding) (args : List Expr) : Program where
  body := [.call (.ident "main") args]
  functions := [namesake params]

/-- Without parameters the function is found, also if the static entry is listed last. -/
theorem pointers_of_callingNamesake :
    let program := callingNamesake [] []
    (program.functions.map FunctionDef.name).Nodup ∧
      (generate (.ofProgram program {}) program Memory.empty).1 = .ok () ∧
      MethodHead.resolve [(namesake []).head, Origin.entry.head] "main" 0 =
        some (namesake []).head :=
  ⟨by decide, generate_memory_ok _ (by decide +kernel),
    ((pointers_of_run (callingNamesake [] []) {} Memory.empty (by decide)
      (generate_memory_ok _ (by decide +kernel))).2.2 (namesake []) List.mem_cons_self _
      (List.Perm.swap _ _ [])).2 (by decide)⟩

/-- With one parameter the static entry fits as well, and is called if it is listed first. -/
theorem callingNamesake_clashes :
    let program := callingNamesake [⟨"n", .int⟩] [.int 1]
    let declared := program.heads.filter MethodHead.isDeclared
    (generate (.ofProgram program {}) program Memory.empty).1 = .ok () ∧
      .instr (.ldcText "main") ∈ program.codes (.ofProgram program {}) ∧
      declared.filter (MethodHead.fits "main" 1) =
        [Origin.entry.head, (namesake [⟨"n", .int⟩]).head] ∧
      MethodHead.resolve declared "main" 1 = some Origin.entry.head :=
  ⟨generate_memory_ok _ (by decide +kernel), by decide, by decide, by decide⟩

end JasminGen
