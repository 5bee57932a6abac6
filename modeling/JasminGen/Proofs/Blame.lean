/-
  JasminGen.Proofs.Blame

  Why lowering fails. Whenever the lowering of a program fails, a construct of the program
  is to blame, or the name of a struct, or a field, or a method that takes more slots than
  there are. So lowering keeps to the scopes that it has entered and to the unit that is
  open, and it never fails for another reason.

  Main definitions: `Defect`, `Program.Blames`, `Site`. Main results: `Expr.lower_leads`,
  `Stmt.lower_leads`, `Program.lower_ends`.
-/

import JasminGen.Proofs.Lowering.Ends
import JasminGen.Proofs.SlotCount

namespace JasminGen

open Gen

-- ============================================================================
-- Defects
-- ============================================================================

/-- Why a name has no slot in a scope: it is a field, or no variable at all. -/
inductive Scope.Slotless (scope : Scope) (name : String) : Failure → Prop where
  | field : scope.kind = .struct → (scope.find? name).isSome →
      scope.Slotless name (.unsupported (.fieldAsVariable name))
  | unknown : scope.find? name = none ∨ scope.kind = .root →
      scope.Slotless name (.unresolved .variable name)

/-- Values of the type can be compared for equality. -/
def Ty.Comparable : Ty → Prop
  | .int | .bool | .list _ | .fptr _ _ => True
  | .void | .struct _ => False

/-- `Defect S id scope node failure`: the construct `node` cannot be lowered in the scope
    `scope` with the id `id`, for the reason `failure`. -/
inductive Defect (S : Setting) (id : ScopeId) (scope : Scope) : SourceNode → Failure → Prop where
  | untyped {e : Expr} {failure : Failure} :
      S.oracle id e = .error failure → Defect S id scope (.expr e) failure
  | read {name : String} {failure : Failure} :
      S.symbols.function? name = none → scope.Slotless name failure →
      Defect S id scope (.expr (.ident name)) failure
  | functionInStruct {name : String} :
      (S.symbols.function? name).isSome → scope.kind = .struct →
      Defect S id scope (.expr (.ident name)) (.unsupported (.functionInStruct name))
  | equality {l r : Expr} {ty : Ty} :
      S.oracle id l = .ok ty → ¬ ty.Comparable →
      Defect S id scope (.expr (.binary .equal l r)) (.unsupported (.equalityOf ty))
  | voids {l r : Expr} {ty : Ty} :
      S.oracle id (.index l r) = .ok ty → ty.className? = none →
      Defect S id scope (.expr (.index l r)) (.unsupported .indexOfVoids)
  | callee {target : Expr} {args : List Expr} {ty : Ty} :
      S.oracle id target = .ok ty → (∀ params result, ty ≠ .fptr params result) →
      Defect S id scope (.expr (.call target args)) (.unsupported (.callOf ty))
  | fieldAccess {e : Expr} {name : String} :
      Defect S id scope (.expr (.field e name)) (.unsupported (.fieldAccess name))
  | declared {name : String} {ty : Ty} {value : Option Expr} {failure : Failure} :
      scope.Slotless name failure → Defect S id scope (.stmt (.declare name ty value)) failure
  | assigned {name : String} {e : Expr} {failure : Failure} :
      scope.Slotless name failure → Defect S id scope (.stmt (.assign (.ident name) e)) failure
  | undefined {name struct : String} :
      S.symbols.struct? struct = none →
      Defect S id scope (.stmt (.declare name (.struct struct) none)) (.unresolved .struct struct)
  | void {name : String} :
      Defect S id scope (.stmt (.declare name .void none)) (.unsupported .voidVariable)
  | target {target e : Expr} {text : String} :
      (∀ name, target ≠ .ident name) →
      Defect S id scope (.stmt (.assign target e)) (.unsupported (.assignment text))
  | display {e : Expr} {ty : Ty} :
      S.oracle id e = .ok ty → ty.printer? = none →
      Defect S id scope (.stmt (.display e)) (.unsupported (.displayOf ty))

/-- What a program is to blame for. -/
inductive Program.Blames (program : Program) (S : Setting) : Failure → Prop where
  | reserved {s : StructDef} :
      s ∈ program.structs → s.name ∈ reservedClasses →
      program.Blames S (.unsupported (.reservedStruct s.name))
  | voidField {s : StructDef} {field : FieldDef} :
      s ∈ program.structs → field ∈ s.fields → field.ty = .void → field.value = none →
      program.Blames S (.unsupported .voidVariable)
  | construct {o : Origin} {scope : Scope} {node : SourceNode} {failure : Failure} :
      o ∈ program.origins → S.symbols.scope (o.scopeId S) = .ok scope → node ∈ o.inside →
      Defect S (o.scopeId S) scope node failure → program.Blames S failure
  | slots {o : Origin} :
      o ∈ program.origins → slotLimit ≤ o.slotCount S →
      program.Blames S (.fault .slotsExhausted)

-- ============================================================================
-- Sites
-- ============================================================================

/-- Where the code of a method is lowered: the scope, the constructs, the variables they
    have slots for, a bound on the slots, and what may be blamed for a failure. -/
structure Site (S : Setting) where
  outer : List ScopeId
  id : ScopeId
  scope : Scope
  nodes : SourceNode → Prop
  names : Finset String
  bound : Nat
  blame : Failure → Prop
  scope_eq : S.symbols.scope id = .ok scope
  names_mem : ∀ node name, nodes node → node.varName? S = some name →
    name ∈ scope.slotNames → name ∈ names
  blame_defect : ∀ node failure, nodes node → Defect S id scope node failure → blame failure
  blame_slots : slotLimit < bound → blame (.fault .slotsExhausted)

/-- The constructs are among those of the site. -/
def Site.Covers {S : Setting} (site : Site S) (nodes : List SourceNode) : Prop :=
  ∀ node ∈ nodes, site.nodes node

/-- A stage at which code can be lowered at the site: its scope is entered, a unit is open,
    and `k` slots are left besides those of its variables. -/
structure Site.Ready {S : Setting} (site : Site S) (k : Nat) (s : Stage) : Prop where
  entered : s.frame.entered = site.id :: site.outer
  opened : s.opened = true
  room : s.frame.slots.demand site.names + k ≤ site.bound

/-- `site.Leads k m k'`: with room for `k` slots, the computation `m` leaves room for `k'`
    slots, or fails with something that may be blamed. -/
def Site.Leads {S : Setting} {α : Type} (site : Site S) (k : Nat) (m : Gen α) (k' : Nat) : Prop :=
  ∀ s, site.Ready k s →
    Ends m S s (fun _ s' => site.Ready k' s') (fun failure _ => site.blame failure)

section Sites

variable {S : Setting} {site : Site S}

@[simp] theorem Site.covers_nil : site.Covers [] := by
  simp [Covers]

@[simp] theorem Site.covers_cons {node : SourceNode} {nodes : List SourceNode} :
    site.Covers (node :: nodes) ↔ site.nodes node ∧ site.Covers nodes :=
  List.forall_mem_cons

@[simp] theorem Site.covers_append {nodes nodes' : List SourceNode} :
    site.Covers (nodes ++ nodes') ↔ site.Covers nodes ∧ site.Covers nodes' :=
  List.forall_mem_append

theorem Site.Ready.activeScope {k : Nat} {s : Stage} (h : site.Ready k s) :
    s.frame.activeScope = site.id := by
  rw [Frame.activeScope, h.entered]
  rfl

namespace Site.Leads

variable {α β : Type} {k k₁ k' : Nat}

theorem bind {m : Gen α} {next : α → Gen β} (h : site.Leads k m k₁)
    (hnext : ∀ a, site.Leads k₁ (next a) k') : site.Leads k (m >>= next) k' :=
  fun s hs => .bind ((h s hs).mono (fun a s' hs' => hnext a s' hs') fun _ _ hblame => hblame)

theorem pure (a : α) : site.Leads k (Gen.pure a) k :=
  fun _ hs => ends_pure hs

theorem fail {failure : Failure} (h : site.blame failure) :
    site.Leads k (Gen.fail failure : Gen α) k' :=
  fun _ _ => ends_fail h

theorem code (c : Code) : site.Leads k (Gen.code c) k :=
  fun _ hs => ends_code hs.opened hs

theorem instr (i : Instr) : site.Leads k (Gen.instr i) k :=
  code (.instr i)

theorem instrs (is : List Instr) : site.Leads k (Gen.instrs is) k :=
  fun _ hs => ends_instrs hs.opened hs

theorem setting_bind {next : Setting → Gen β} (h : site.Leads k (next S) k') :
    site.Leads k (setting >>= next) k' :=
  fun s hs => ends_setting_bind (h s hs)

theorem freshLabel : site.Leads k Gen.freshLabel k :=
  fun _ hs => ends_freshLabel ⟨hs.entered, hs.opened, hs.room⟩

theorem scope_bind {next : Scope → Gen β} (h : site.Leads k (next site.scope) k') :
    site.Leads k (Gen.scope >>= next) k' := by
  refine fun s hs => .bind (ends_scope ?_ ?_)
  · intro scope hscope
    rw [hs.activeScope, site.scope_eq] at hscope
    obtain rfl := Except.ok.inj hscope
    exact h s hs
  · intro fault hfault
    rw [hs.activeScope, site.scope_eq] at hfault
    cases hfault

theorem lookupFunction_bind {name : String} {next : Option Signature → Gen β}
    (h : site.Leads k (next (S.symbols.function? name)) k') :
    site.Leads k (lookupFunction name >>= next) k' := by
  have hlookup : S.symbols.lookupFunction site.id name = .ok (S.symbols.function? name) := by
    rw [SymbolTable.lookupFunction, site.scope_eq]
  refine fun s hs => .bind (ends_lookupFunction ?_ ?_)
  · intro found hfound
    rw [hs.activeScope, hlookup] at hfound
    obtain rfl := Except.ok.inj hfound
    exact h s hs
  · intro fault hfault
    rw [hs.activeScope, hlookup] at hfault
    cases hfault

theorem lookupStruct_bind {name : String} {next : Option Layout → Gen β}
    (h : site.Leads k (next (S.symbols.struct? name)) k') :
    site.Leads k (lookupStruct name >>= next) k' := by
  have hlookup : S.symbols.lookupStruct site.id name = .ok (S.symbols.struct? name) := by
    rw [SymbolTable.lookupStruct, site.scope_eq]
  refine fun s hs => .bind (ends_lookupStruct ?_ ?_)
  · intro found hfound
    rw [hs.activeScope, hlookup] at hfound
    obtain rfl := Except.ok.inj hfound
    exact h s hs
  · intro fault hfault
    rw [hs.activeScope, hlookup] at hfault
    cases hfault

/-- An expression of the site that is asked for its type has one, or is to blame. -/
theorem typeOf_bind {e : Expr} {next : Ty → Gen β} (he : site.nodes (.expr e))
    (h : ∀ ty, S.oracle site.id e = .ok ty → site.Leads k (next ty) k') :
    site.Leads k (typeOf e >>= next) k' := by
  refine fun s hs => .bind (ends_typeOf ?_ ?_)
  · intro ty hty
    rw [hs.activeScope] at hty
    exact h ty hty s hs
  · intro failure hfailure
    rw [hs.activeScope] at hfailure
    exact site.blame_defect _ _ he (.untyped hfailure)

/-- A loop takes a slot of its own. -/
theorem freshSlot : site.Leads (k + 1) Gen.freshSlot k := by
  refine fun s hs => ends_takeSlot ?_ ?_
  · intro slot slots hslot
    refine ⟨hs.entered, hs.opened, ?_⟩
    have hdemand := SlotTable.demand_allocateAnonymous site.names hslot
    have hroom := hs.room
    show slots.demand site.names + k ≤ site.bound
    omega
  · intro fault hfault
    obtain ⟨rfl, hlimit⟩ := SlotTable.exhausted_of_allocateAnonymous hfault
    have hnext := s.frame.slots.next_le_demand site.names
    have hroom := hs.room
    exact site.blame_slots (by omega)

/-- A variable of the site is bound to a slot. -/
theorem allocate {name : String} (hname : name ∈ site.names) :
    site.Leads k (takeSlot fun slots => slots.allocate name) k := by
  refine fun s hs => ends_takeSlot ?_ ?_
  · intro slot slots hslot
    refine ⟨hs.entered, hs.opened, ?_⟩
    have hdemand := SlotTable.demand_allocate hname hslot
    have hroom := hs.room
    show slots.demand site.names + k ≤ site.bound
    omega
  · intro fault hfault
    obtain ⟨rfl, hlimit⟩ := SlotTable.exhausted_of_allocate hname hfault
    have hroom := hs.room
    exact site.blame_slots (by omega)

/-- The variable of a construct has a slot, or the construct is to blame. -/
theorem slotOf {node : SourceNode} {name : String} (hnode : site.nodes node)
    (hvariable : node.varName? S = some name)
    (hdefect : ∀ failure, site.scope.Slotless name failure →
      Defect S site.id site.scope node failure) :
    site.Leads k (Gen.slotOf name) k := by
  have hblame : ∀ failure, site.scope.Slotless name failure → site.blame failure :=
    fun failure hslotless => site.blame_defect node failure hnode (hdefect failure hslotless)
  have hbind : ∀ ty, site.scope.find? name = some ty →
      site.scope.kind = .function ∨ site.scope.kind = .entry →
      site.Leads k (takeSlot fun slots => slots.allocate name) k := by
    intro ty hfound hkind
    have hmem := Scope.mem_slotNames hkind (Option.isSome_of_eq_some hfound)
    exact allocate (site.names_mem node name hnode hvariable hmem)
  intro s hs
  refine ends_frame_bind ?_
  cases s.frame.slots.get? name with
  | some slot => exact ends_pure hs
  | none =>
      -- the cases are those of the kind of scope and of whether it has the name
      refine scope_bind ?_ s hs
      split
      · next ty hfound hkind => exact hbind ty hfound (.inl hkind)
      · next ty hfound hkind => exact hbind ty hfound (.inr hkind)
      · next ty hfound hkind =>
          exact fail (hblame _ (.field hkind (Option.isSome_of_eq_some hfound)))
      · next hfunction hentry hstruct =>
          refine fail (hblame _ (.unknown ?_))
          cases hfound : site.scope.find? name with
          | none => exact .inl rfl
          | some ty =>
              cases hkind : site.scope.kind with
              | root => exact .inr rfl
              | function => exact absurd hkind (hfunction ty hfound)
              | struct => exact absurd hkind (hstruct ty hfound)
              | entry => exact absurd hkind (hentry ty hfound)

-- ============================================================================
-- Expressions
-- ============================================================================

theorem condition (negated : Branch) : site.Leads k (Gen.condition negated) k :=
  freshLabel.bind fun _ => freshLabel.bind fun _ =>
    (instr _).bind fun _ => (instr _).bind fun _ => (instr _).bind fun _ =>
      (code _).bind fun _ => (instr _).bind fun _ => (code _).bind fun _ => instr _

end Site.Leads

open Site (Leads)

variable {k : Nat}

theorem Expr.lowerName_leads {name : String} (hnode : site.nodes (.expr (.ident name))) :
    site.Leads k (lowerName name) k := by
  refine .lookupFunction_bind ?_
  cases hfunction : S.symbols.function? name with
  | none =>
      have hvariable : (SourceNode.expr (.ident name)).varName? S = some name := by
        simp [SourceNode.varName?, hfunction]
      exact (Leads.slotOf hnode hvariable fun _ => .read hfunction).bind fun _ => .instr _
  | some signature =>
      refine .scope_bind ?_
      split
      · next hkind =>
          exact .fail (site.blame_defect _ _ hnode (.functionInStruct (by simp [hfunction]) hkind))
      · exact .instrs _

theorem Expr.narrowResult_leads (result : Ty) : site.Leads k (narrowResult result) k := by
  unfold narrowResult
  split <;> exact .instr _

/-- The target of a call is a function pointer, or the call is to blame. -/
theorem Expr.callResult_leads {target : Expr} {args : List Expr}
    (hcall : site.nodes (.expr (.call target args))) (ht : site.nodes (.expr target)) :
    site.Leads k (callResult target) k := by
  refine .typeOf_bind ht ?_
  intro ty hty
  cases ty with
  | fptr params result => exact .pure result
  | _ => exact .fail (site.blame_defect _ _ hcall (.callee hty (by simp)))

mutual

/-- Lowering an expression takes slots for its variables only, and fails for its defects
    only. -/
theorem Expr.lower_leads : ∀ (e : Expr), site.Covers (.expr e :: e.inside) →
    ∀ k, site.Leads k e.lower k
  | .int _, _, k => (Leads.instr _).bind fun _ => .instr _
  | .bool _, _, k => (Leads.instr _).bind fun _ => .instr _
  | .ident name, h, k => lowerName_leads (Site.covers_cons.mp h).1
  | .group inner, h, k => by
      rw [Expr.inside, Site.covers_cons] at h
      exact lower_leads inner h.2 k
  | .binary (.arith op) l r, h, k => by
      rw [Expr.inside, Site.covers_cons, Site.covers_append] at h
      have hleft := lower_leads l h.2.1 k
      have hright := lower_leads r h.2.2 k
      exact hleft.bind fun _ => (Leads.instr _).bind fun _ => hright.bind fun _ =>
        (Leads.instr _).bind fun _ => (Leads.instr _).bind fun _ => .instr _
  | .binary (.order op) l r, h, k => by
      rw [Expr.inside, Site.covers_cons, Site.covers_append] at h
      have hleft := lower_leads l h.2.1 k
      have hright := lower_leads r h.2.2 k
      exact hleft.bind fun _ => (Leads.instr _).bind fun _ => hright.bind fun _ =>
        (Leads.instr _).bind fun _ => .condition _
  | .binary (.logic op) l r, h, k => by
      rw [Expr.inside, Site.covers_cons, Site.covers_append] at h
      have hleft := lower_leads l h.2.1 k
      have hright := lower_leads r h.2.2 k
      exact Leads.freshLabel.bind fun _ => Leads.freshLabel.bind fun _ => hleft.bind fun _ =>
        (Leads.instr _).bind fun _ => (Leads.instr _).bind fun _ => hright.bind fun _ =>
        (Leads.instr _).bind fun _ => (Leads.instr _).bind fun _ => (Leads.code _).bind fun _ =>
        (Leads.instr _).bind fun _ => (Leads.code _).bind fun _ => .instr _
  | .binary .equal l r, h, k => by
      rw [Expr.inside, Site.covers_cons, Site.covers_append] at h
      obtain ⟨hnode, hl, hr⟩ := h
      have hleft := lower_leads l hl k
      have hright := lower_leads r hr k
      refine .typeOf_bind (Site.covers_cons.mp hl).1 ?_
      intro ty hty
      cases ty with
      | int | bool =>
          exact hleft.bind fun _ => (Leads.instr _).bind fun _ => hright.bind fun _ =>
            (Leads.instr _).bind fun _ => .condition _
      | list | fptr => exact hleft.bind fun _ => hright.bind fun _ => .condition _
      | void | struct => exact .fail (site.blame_defect _ _ hnode (.equality hty id))
  | .unary .not e, h, k => by
      rw [Expr.inside, Site.covers_cons] at h
      exact (lower_leads e h.2 k).bind fun _ => (Leads.instr _).bind fun _ =>
        (Leads.instr _).bind fun _ => (Leads.instr _).bind fun _ => .instr _
  | .unary .neg e, h, k => by
      rw [Expr.inside, Site.covers_cons] at h
      exact (lower_leads e h.2 k).bind fun _ => (Leads.instr _).bind fun _ =>
        (Leads.instr _).bind fun _ => .instr _
  | .index l r, h, k => by
      rw [Expr.inside, Site.covers_cons, Site.covers_append] at h
      obtain ⟨hnode, hl, hr⟩ := h
      refine .typeOf_bind hnode ?_
      intro ty hty
      cases hname : ty.className? with
      | none => exact .fail (site.blame_defect _ _ hnode (.voids hty hname))
      | some name =>
          exact (lower_leads l hl k).bind fun _ => (lower_leads r hr k).bind fun _ =>
            (Leads.instr _).bind fun _ => (Leads.instr _).bind fun _ => .instr _
  | .append l r, h, k => by
      rw [Expr.inside, Site.covers_cons, Site.covers_append] at h
      exact (lower_leads l h.2.1 k).bind fun _ => (Leads.instr _).bind fun _ =>
        (lower_leads r h.2.2 k).bind fun _ => .instr _
  | .size e, h, k => by
      rw [Expr.inside, Site.covers_cons] at h
      exact (lower_leads e h.2 k).bind fun _ => (Leads.instr _).bind fun _ => .instr _
  | .call target args, h, k => by
      rw [Expr.inside, Site.covers_cons, Site.covers_append] at h
      obtain ⟨hnode, ht, ha⟩ := h
      exact (callResult_leads hnode (Site.covers_cons.mp ht).1).bind fun result =>
        (lower_leads target ht k).bind fun _ => (Leads.instrs _).bind fun _ =>
        (lowerArgs_leads args ha k).bind fun _ => (Leads.instr _).bind fun _ =>
        narrowResult_leads result
  | .field e name, h, k => .fail (site.blame_defect _ _ (Site.covers_cons.mp h).1 .fieldAccess)

/-- The same for the arguments of a call. -/
theorem Expr.lowerArgs_leads : ∀ (es : List Expr), site.Covers (Expr.nodesOf es) →
    ∀ k, site.Leads k (lowerArgs es) k
  | [], _, k => .pure ()
  | arg :: rest, h, k => by
      rw [Expr.nodesOf, Site.covers_append] at h
      obtain ⟨ha, hrest⟩ := h
      have harg := lower_leads arg ha k
      have hafter : site.Leads k (Gen.instr (.invoke .arrayListAdd) >>= fun _ =>
          Gen.instr .pop >>= fun _ => lowerArgs rest) k :=
        (Leads.instr _).bind fun _ => (Leads.instr _).bind fun _ => lowerArgs_leads rest hrest k
      refine (Leads.instr _).bind fun _ => .typeOf_bind (Site.covers_cons.mp ha).1 ?_
      intro ty _
      cases ty with
      | list element =>
          exact (Leads.instrs _).bind fun _ => harg.bind fun _ => (Leads.instr _).bind fun _ => hafter
      | _ => exact harg.bind fun _ => hafter

end

-- ============================================================================
-- Statements
-- ============================================================================

/-- The value that a variable or field starts with, if its type has one. -/
theorem Gen.zeroValue_leads {ty : Ty} (hvoid : ty = .void → site.blame (.unsupported .voidVariable))
    (hstruct : ∀ name, ty = .struct name → S.symbols.struct? name = none →
      site.blame (.unresolved .struct name)) :
    site.Leads k (zeroValue ty) k := by
  cases ty with
  | int | bool => exact (Leads.instr _).bind fun _ => .instr _
  | void => exact .fail (hvoid rfl)
  | struct name =>
      refine .lookupStruct_bind ?_
      cases hfound : S.symbols.struct? name with
      | none => exact .fail (hstruct name rfl hfound)
      | some layout => exact .instrs _
  | list element => exact .instrs _
  | fptr params result => exact .instr _

theorem Stmt.comment_leads (s : Stmt) : site.Leads k s.comment k := by
  refine .setting_bind ?_
  split
  · exact .pure ()
  · dsimp only
    split
    · exact fun _ hs => ends_emit hs.opened hs
    · exact .pure ()

theorem Stmt.store_leads {node : SourceNode} {name : String} (hnode : site.nodes node)
    (hvariable : node.varName? S = some name)
    (hdefect : ∀ failure, site.scope.Slotless name failure →
      Defect S site.id site.scope node failure) :
    site.Leads k (store name) k :=
  (Leads.slotOf hnode hvariable hdefect).bind fun _ => .instr _

theorem Stmt.dropResult_leads (ty : Ty) : site.Leads k (dropResult ty) k := by
  unfold dropResult
  split
  · exact .pure ()
  · exact .instr _
  · exact .pure ()

theorem Stmt.lowerDisplay_leads {e : Expr} (hnode : site.nodes (.stmt (.display e)))
    (he : site.Covers (.expr e :: e.inside)) : site.Leads k (lowerDisplay e) k := by
  refine .typeOf_bind (Site.covers_cons.mp he).1 ?_
  intro ty hty
  cases ty with
  | int | bool =>
      exact (Leads.instr _).bind fun _ => (e.lower_leads he k).bind fun _ =>
        (Leads.instr _).bind fun _ => .instr _
  | _ => exact .fail (site.blame_defect _ _ hnode (.display hty rfl))

mutual

/-- Lowering a statement takes slots for its variables and loops only, and fails for its
    defects only. -/
theorem Stmt.lower_leads : ∀ (s : Stmt), site.Covers (.stmt s :: s.inside) →
    ∀ k, site.Leads (s.loopCount + k) s.lower k
  | .block body, h, k => by
      rw [Stmt.inside, Site.covers_cons] at h
      exact lowerAll_leads body h.2 k
  | .declare name ty (some e), h, k => by
      rw [Stmt.inside, Site.covers_cons] at h
      rw [Stmt.loopCount, Nat.zero_add]
      exact (comment_leads _).bind fun _ => (e.lower_leads h.2 k).bind fun _ =>
        store_leads h.1 rfl fun _ => .declared
  | .declare name ty none, h, k => by
      rw [Site.covers_cons] at h
      rw [Stmt.loopCount, Nat.zero_add]
      refine (comment_leads _).bind fun _ => Leads.bind (zeroValue_leads ?_ ?_) fun _ =>
        store_leads h.1 rfl fun _ => .declared
      · rintro rfl
        exact site.blame_defect _ _ h.1 .void
      · rintro struct rfl hnone
        exact site.blame_defect _ _ h.1 (.undefined hnone)
  | .assign target e, h, k => by
      rw [Stmt.inside, Site.covers_cons] at h
      rw [Stmt.loopCount, Nat.zero_add]
      refine (comment_leads _).bind fun _ => ?_
      cases target with
      | ident name =>
          exact (e.lower_leads h.2 k).bind fun _ => store_leads h.1 rfl fun _ => .assigned
      | _ => exact .setting_bind (.fail (site.blame_defect _ _ h.1 (.target (by simp))))
  | .cond test positive negative, h, k => by
      rw [Stmt.inside_cond, Site.covers_cons, Site.covers_append, Site.covers_append] at h
      obtain ⟨-, ⟨ht, hp⟩, hn⟩ := h
      rw [Stmt.loopCount_cond, Nat.add_assoc]
      exact (comment_leads _).bind fun _ => Leads.freshLabel.bind fun _ =>
        Leads.freshLabel.bind fun _ => (test.lower_leads ht _).bind fun _ =>
        (Leads.instr _).bind fun _ => (Leads.instr _).bind fun _ =>
        (lower_leads positive hp _).bind fun _ => (Leads.instr _).bind fun _ =>
        (Leads.code _).bind fun _ => (Leads.instr _).bind fun _ =>
        (lowerOption_leads negative hn k).bind fun _ => (Leads.code _).bind fun _ => .instr _
  | .loop count body, h, k => by
      rw [Stmt.inside, Site.covers_cons, Site.covers_append] at h
      obtain ⟨-, hc, hb⟩ := h
      have hcount : (Stmt.loop count body).loopCount + k = (body.loopCount + k) + 1 := by
        rw [Stmt.loopCount]
        omega
      rw [hcount]
      exact (comment_leads _).bind fun _ => Leads.freshSlot.bind fun _ =>
        Leads.freshLabel.bind fun _ => Leads.freshLabel.bind fun _ =>
        (count.lower_leads hc _).bind fun _ => (Leads.instr _).bind fun _ =>
        (Leads.instr _).bind fun _ => (Leads.instr _).bind fun _ => (Leads.code _).bind fun _ =>
        (lower_leads body hb k).bind fun _ => (Leads.instr _).bind fun _ =>
        (Leads.code _).bind fun _ => (Leads.instr _).bind fun _ => .instr _
  | .call target args, h, k => by
      rw [Stmt.inside, Site.covers_cons] at h
      have ht : site.nodes (.expr target) := by
        refine h.2 _ ?_
        rw [Expr.inside]
        simp
      rw [Stmt.loopCount, Nat.zero_add]
      refine (comment_leads _).bind fun _ => .typeOf_bind ht fun ty _ => ?_
      exact ((Expr.call target args).lower_leads h.2 k).bind fun _ => dropResult_leads ty
  | .ret none, h, k => by
      rw [Stmt.loopCount, Nat.zero_add]
      exact (comment_leads _).bind fun _ => .instr _
  | .ret (some e), h, k => by
      rw [Stmt.inside, Site.covers_cons] at h
      rw [Stmt.loopCount, Nat.zero_add]
      refine (comment_leads _).bind fun _ => .typeOf_bind (Site.covers_cons.mp h.2).1 fun ty _ => ?_
      refine (e.lower_leads h.2 k).bind fun _ => ?_
      split <;> exact .instr _
  | .display e, h, k => by
      rw [Stmt.inside, Site.covers_cons] at h
      rw [Stmt.loopCount, Nat.zero_add]
      exact (comment_leads _).bind fun _ => lowerDisplay_leads h.1 h.2
  | .append l r, h, k => by
      rw [Stmt.inside, Site.covers_cons] at h
      rw [Stmt.loopCount, Nat.zero_add]
      exact (comment_leads _).bind fun _ => ((Expr.append l r).lower_leads h.2 k).bind fun _ =>
        .instr _
  | .size e, h, k => by
      rw [Stmt.inside, Site.covers_cons] at h
      rw [Stmt.loopCount, Nat.zero_add]
      exact (comment_leads _).bind fun _ => ((Expr.size e).lower_leads h.2 k).bind fun _ => .instr _

/-- The same for a statement that may be missing. -/
theorem Stmt.lowerOption_leads : ∀ (s : Option Stmt), site.Covers (Stmt.nodesOf s.toList) →
    ∀ k, site.Leads (Stmt.loopCountAll s.toList + k) (lowerOption s) k
  | none, _, k => by
      rw [Option.toList, Stmt.loopCountAll, Nat.zero_add]
      exact .pure ()
  | some s, h, k => by
      rw [Option.toList, Stmt.nodesOf, Site.covers_append] at h
      rw [Option.toList, Stmt.loopCountAll, Stmt.loopCountAll, Nat.add_zero]
      exact lower_leads s h.1 k

/-- The same for statements in a row. -/
theorem Stmt.lowerAll_leads : ∀ (ss : List Stmt), site.Covers (Stmt.nodesOf ss) →
    ∀ k, site.Leads (Stmt.loopCountAll ss + k) (lowerAll ss) k
  | [], _, k => by
      rw [Stmt.loopCountAll, Nat.zero_add]
      exact .pure ()
  | s :: rest, h, k => by
      rw [Stmt.nodesOf, Site.covers_append] at h
      rw [Stmt.loopCountAll, Nat.add_assoc]
      exact (lower_leads s h.1 _).bind fun _ => lowerAll_leads rest h.2 k

end

-- ============================================================================
-- Methods
-- ============================================================================

/-- The value that a field starts with. -/
theorem FieldDef.initial_leads {field : FieldDef}
    (hvalue : ∀ e, field.value = some e → site.Covers (.expr e :: e.inside))
    (hvoid : field.ty = .void → field.value = none → site.blame (.unsupported .voidVariable)) :
    site.Leads k field.initial k := by
  obtain ⟨name, ty, value⟩ := field
  cases value with
  | some e => exact e.lower_leads (hvalue e rfl) k
  | none =>
      cases ty with
      | struct name => exact .instr _
      | void => exact .fail (hvoid rfl rfl)
      | _ =>
          rw [FieldDef.initial]
          exact zeroValue_leads (by simp) (by simp)

theorem StructDef.initFields_leads {className : String} : ∀ (fields : List FieldDef),
    site.Covers (FieldDef.nodesOf fields) →
    (∀ field ∈ fields, field.ty = .void → field.value = none →
      site.blame (.unsupported .voidVariable)) →
    ∀ k, site.Leads k (initFields className fields) k
  | [], _, _, k => .pure ()
  | field :: rest, h, hvoid, k => by
      have hvalue : ∀ e, field.value = some e → site.Covers (.expr e :: e.inside) := by
        intro e he
        rw [FieldDef.nodesOf, List.filterMap_cons, he, Expr.nodesOf, Site.covers_append] at h
        exact h.1
      have hrest : site.Covers (FieldDef.nodesOf rest) := by
        cases he : field.value with
        | none => rwa [FieldDef.nodesOf, List.filterMap_cons, he] at h
        | some e =>
            rw [FieldDef.nodesOf, List.filterMap_cons, he, Expr.nodesOf, Site.covers_append] at h
            exact h.2
      obtain ⟨hfield, hfields⟩ := List.forall_mem_cons.mp hvoid
      exact (Leads.instr _).bind fun _ => (field.initial_leads hvalue hfield).bind fun _ =>
        (Leads.instr _).bind fun _ => initFields_leads rest hrest hfields k

end Sites

/-- The symbol table has a scope for every method of the program that is lowered in one,
    and a signature for every function. -/
structure Setting.Knows (S : Setting) (program : Program) : Prop where
  structs : ∀ s ∈ program.structs, ∃ id scope,
    S.symbols.childScope? .struct s.name = some id ∧ S.symbols.scope id = .ok scope
  functions : ∀ f ∈ program.functions, ∃ id scope signature,
    S.symbols.childScope? .function f.name = some id ∧ S.symbols.scope id = .ok scope ∧
      S.symbols.function? f.name = some signature
  entry : ∃ id scope,
    S.symbols.childScope? .entry entryScopeName = some id ∧ S.symbols.scope id = .ok scope

/-- A stage with no scope entered, where a unit is open or not. -/
structure Stage.AtRoot (s : Stage) (opened : Bool) : Prop where
  entered : s.frame.entered = []
  opened : s.opened = opened

section Methods

variable {S : Setting} {program : Program} {o : Origin} {scope : Scope}

/-- The site of a method of a program. -/
def Program.site (ho : o ∈ program.origins) (hscope : S.symbols.scope (o.scopeId S) = .ok scope)
    (outer : List ScopeId) : Site S where
  outer := outer
  id := o.scopeId S
  scope := scope
  nodes := (· ∈ o.inside)
  names := o.slotVariables S
  bound := o.slotCount S + 1
  blame := program.Blames S
  scope_eq := hscope
  names_mem := fun _ _ hnode hvariable hslot => o.mem_slotVariables hnode hvariable hscope hslot
  blame_defect := fun _ _ hnode hdefect => .construct ho hscope hnode hdefect
  blame_slots := fun hlimit => .slots ho (Nat.le_of_lt_succ hlimit)

/-- A method starts with room for all its slots, unless its parameters are too many. -/
theorem Program.beginMethod_ends (ho : o ∈ program.origins)
    (hscope : S.symbols.scope (o.scopeId S) = .ok scope) {s : Stage} {outer : List ScopeId}
    (hentered : s.frame.entered = o.scopeId S :: outer) (hopened : s.opened = true) :
    Ends (beginMethod (o.params S)) S s
      (fun _ s' => (program.site ho hscope outer).Ready o.loopCount s')
      (fun failure _ => program.Blames S failure) := by
  have hnames : ∀ name ∈ o.params S, name ∈ o.slotVariables S := by
    intro name hname
    rw [Origin.slotVariables, Finset.mem_union, List.mem_toFinset]
    exact .inl hname
  have hdemand := SlotTable.demand_empty (o.slotVariables S)
  have hcount : o.slotCount S = (o.slotVariables S).card + o.loopCount := rfl
  refine ends_beginMethod ?_ ?_
  · intro slots hslots
    have hkept := o.demand_forMethod hslots
    refine ⟨hentered, hopened, ?_⟩
    show slots.demand (o.slotVariables S) + o.loopCount ≤ o.slotCount S + 1
    omega
  · intro fault hfault
    rcases SlotTable.demand_allocateAll (o.params S) hnames .empty with
      ⟨slots', hslots', -⟩ | ⟨herror, hlimit⟩
    · cases hfault.symm.trans hslots'
    · obtain rfl := Except.error.inj (hfault.symm.trans herror)
      exact .slots ho (by omega)

/-- A constructor has no parameters. -/
theorem Program.beginConstructor_ends (ho : o ∈ program.origins) (hparams : o.params S = [])
    (hscope : S.symbols.scope (o.scopeId S) = .ok scope) {s : Stage} {outer : List ScopeId}
    (hentered : s.frame.entered = o.scopeId S :: outer) (hopened : s.opened = true) :
    Ends beginConstructor S s
      (fun _ s' => (program.site ho hscope outer).Ready o.loopCount s')
      (fun failure _ => program.Blames S failure) := by
  have hbegin := program.beginMethod_ends ho hscope hentered hopened
  rw [hparams] at hbegin
  refine .bind (hbegin.mono (fun _ s' hs' => ?_) fun _ _ hblame => hblame)
  exact .bind (ends_code hs'.opened (ends_instrs hs'.opened hs'))

theorem StructDef.declareFields_ends {fields : List FieldDef} {s : Stage}
    {Q : Unit → Stage → Prop} {E : Failure → Stage → Prop} (hopened : s.opened = true)
    (h : Q () s) : Ends (declareFields fields) S s Q E := by
  induction fields with
  | nil => exact ends_pure h
  | cons field rest ih => exact .bind (ends_code hopened ih)

/-- The class of a struct is written, or the program is to blame. -/
theorem StructDef.lower_ends (hS : S.Knows program) {d : StructDef} (hd : d ∈ program.structs)
    {s : Stage} (hs : s.AtRoot false) :
    Ends d.lower S s (fun _ s' => s'.AtRoot false) (fun failure _ => program.Blames S failure) := by
  obtain ⟨id, scope, hid, hscope⟩ := hS.structs d hd
  have ho : Origin.constructor d ∈ program.origins := by
    simp [Program.origins, hd]
  have hsite : (Origin.constructor d).scopeId S = id := by rw [Origin.scopeId, hid]; rfl
  subst hsite
  have hinit : (program.site ho hscope s.frame.entered).Leads 0 (initFields d.name d.fields) 0 :=
    initFields_leads d.fields (fun _ hnode => hnode)
      (fun _ hfield hty hnone => Program.Blames.voidField hd hfield hty hnone) 0
  refine .bind (ends_report ?_)
  split
  · next hreserved => exact ends_fail (.reserved hd hreserved)
  · refine .bind (ends_enterScope hid (.bind (ends_openUnit hs.opened
      (.bind (ends_code rfl (.bind (declareFields_ends rfl (.bind ?_))))))))
    refine (program.beginConstructor_ends ho rfl hscope rfl rfl).mono ?_ fun _ _ hblame => hblame
    intro _ s₁ hs₁
    refine .bind ((hinit s₁ hs₁).mono ?_ fun _ _ hblame => hblame)
    intro _ s₂ hs₂
    refine .bind (ends_code hs₂.opened (.bind (ends_code hs₂.opened
      (.bind (ends_closeUnit hs₂.opened (ends_leaveScope hs₂.entered ⟨?_, rfl⟩))))))
    exact hs.entered

/-- The method of a function is written, or the program is to blame. -/
theorem FunctionDef.lower_ends (hS : S.Knows program) {fn : FunctionDef}
    (hfn : fn ∈ program.functions) {s : Stage} (hs : s.AtRoot true) :
    Ends fn.lower S s (fun _ s' => s'.AtRoot true) (fun failure _ => program.Blames S failure) := by
  obtain ⟨id, scope, signature, hid, hscope, hsignature⟩ := hS.functions fn hfn
  have ho : Origin.function fn ∈ program.origins := by
    simp [Program.origins, hfn]
  have hsite : (Origin.function fn).scopeId S = id := by rw [Origin.scopeId, hid]; rfl
  have hparams : (Origin.function fn).params S = signature.params.map Binding.name := by
    rw [Origin.params, hsignature]
    rfl
  subst hsite
  have hlookup : S.symbols.lookupFunction ((Origin.function fn).scopeId S) fn.name =
      .ok (some signature) := by
    rw [SymbolTable.lookupFunction, hscope, hsignature]
  have hbody : (program.site ho hscope s.frame.entered).Leads (Origin.function fn).loopCount
      (Stmt.lowerAll fn.body) 0 :=
    Stmt.lowerAll_leads fn.body (fun _ hnode => hnode) 0
  refine .bind (ends_report (.bind (ends_enterScope hid (.bind (ends_lookupFunction ?_ ?_)))))
  · intro found hfound
    obtain rfl := Except.ok.inj (hlookup.symm.trans hfound)
    dsimp only
    rw [← hparams]
    refine .bind ((program.beginMethod_ends ho hscope rfl (by exact hs.opened)).mono ?_
      fun _ _ hblame => hblame)
    intro _ s₁ hs₁
    refine .bind (ends_code hs₁.opened (.bind ((hbody s₁ hs₁).mono ?_ fun _ _ hblame => hblame)))
    intro _ s₂ hs₂
    have hend : Ends (code .endMethod >>= fun _ => leaveScope) S s₂
        (fun _ s' => s'.AtRoot true) (fun failure _ => program.Blames S failure) :=
      .bind (ends_code hs₂.opened (ends_leaveScope hs₂.entered ⟨hs.entered, hs₂.opened⟩))
    cases hv : signature.result.isVoid with
    | true => exact .bind (ends_code hs₂.opened hend)
    | false => exact hend
  · intro fault hfault
    cases hlookup.symm.trans hfault

theorem FunctionDef.lowerAll_ends (hS : S.Knows program) : ∀ (fns : List FunctionDef),
    (∀ fn ∈ fns, fn ∈ program.functions) → ∀ {s : Stage}, s.AtRoot true →
    Ends (FunctionDef.lowerAll fns) S s (fun _ s' => s'.AtRoot true)
      (fun failure _ => program.Blames S failure)
  | [], _, _, hs => ends_pure hs
  | fn :: rest, hfns, s, hs => by
      obtain ⟨hfn, hrest⟩ := List.forall_mem_cons.mp hfns
      refine .bind ((fn.lower_ends hS hfn hs).mono ?_ fun _ _ hblame => hblame)
      intro _ s₁ hs₁
      exact lowerAll_ends hS rest hrest hs₁

/-- The entry class is written, or the program is to blame. -/
theorem Program.lowerEntry_ends (hS : S.Knows program) {s : Stage} (hs : s.AtRoot false) :
    Ends (lowerEntry program.body program.functions) S s (fun _ s' => s'.AtRoot false)
      (fun failure _ => program.Blames S failure) := by
  obtain ⟨id, scope, hid, hscope⟩ := hS.entry
  have ho : Origin.body program.body ∈ program.origins := by
    simp [Program.origins]
  have hsite : (Origin.body program.body).scopeId S = id := by rw [Origin.scopeId, hid]; rfl
  subst hsite
  have hbody : (program.site ho hscope s.frame.entered).Leads (Origin.body program.body).loopCount
      (Stmt.lowerAll program.body) 0 :=
    Stmt.lowerAll_leads program.body (fun _ hnode => hnode) 0
  refine .bind (ends_report (.bind (ends_openUnit hs.opened (.bind (ends_code rfl
    (.bind (ends_code rfl (.bind (ends_code rfl (.bind (ends_enterScope hid (.bind ?_))))))))))))
  refine (program.beginConstructor_ends ho rfl hscope rfl rfl).mono ?_ fun _ _ hblame => hblame
  intro _ s₁ hs₁
  refine .bind ((hbody s₁ hs₁).mono ?_ fun _ _ hblame => hblame)
  intro _ s₂ hs₂
  refine .bind (ends_code hs₂.opened (.bind (ends_code hs₂.opened
    (.bind (ends_leaveScope hs₂.entered (.bind ?_))))))
  have hleft : Stage.AtRoot
      ⟨⟨s.frame.entered, s₂.frame.slots, s₂.frame.nextLabel⟩, s₂.opened⟩ true :=
    ⟨hs.entered, hs₂.opened⟩
  refine (FunctionDef.lowerAll_ends hS program.functions (fun _ hfn => hfn) hleft).mono ?_
    fun _ _ hblame => hblame
  intro _ s₃ hs₃
  exact ends_closeUnit hs₃.opened ⟨hs₃.entered, rfl⟩

theorem Program.lowerStructs_ends (hS : S.Knows program) : ∀ (structs : List StructDef),
    (∀ d ∈ structs, d ∈ program.structs) → ∀ {s : Stage}, s.AtRoot false →
    Ends (lowerStructs structs) S s (fun _ s' => s'.AtRoot false)
      (fun failure _ => program.Blames S failure)
  | [], _, _, hs => ends_pure hs
  | d :: rest, hstructs, s, hs => by
      obtain ⟨hd, hrest⟩ := List.forall_mem_cons.mp hstructs
      refine .bind ((d.lower_ends hS hd hs).mono ?_ fun _ _ hblame => hblame)
      intro _ s₁ hs₁
      exact lowerStructs_ends hS rest hrest hs₁

/-- A program is lowered with all units closed and all scopes left, or it is to blame. -/
theorem Program.lower_ends (hS : S.Knows program) {s : Stage} (hs : s.AtRoot false) :
    Ends program.lower S s (fun _ s' => s'.AtRoot false)
      (fun failure _ => program.Blames S failure) := by
  refine .bind ((program.lowerStructs_ends hS program.structs (fun _ hd => hd) hs).mono ?_
    fun _ _ hblame => hblame)
  intro _ s₁ hs₁
  exact program.lowerEntry_ends hS hs₁

end Methods

end JasminGen
