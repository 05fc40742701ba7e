import LispFront.Analysis.Branch
import LispFront.Analysis.Interop
import LispFront.Proofs.Analysis.Parts.Basic

/-!
# What constructs without binders are made of

The arguments of a construct stand in its form. A handler and a `finally` clause are lists of their
own between the `try` and what they are made of, and so is the list that calls a member.
-/

namespace LispFront

open AnalyzerM Recurse.Composes

variable {recurse : Recurse} {form : Form}

theorem composes_analyzeAll {forms : List Form} (h : ∀ f ∈ forms, form.HasPart f) (e : Env) :
    recurse.Composes form (analyzeAll recurse forms e) :=
  .mapM fun f hf => .hasPart (h f hf) e

theorem composes_analyzeSequence {exprs : List Form} (h : ∀ f ∈ exprs, form.HasPart f) (f : Form)
    (e : Env) (body : Bool) :
    recurse.Composes form (analyzeSequence recurse f exprs e body) := by
  unfold analyzeSequence
  split
  · exact .pure _
  · rename_i last hlast
    refine andThen (composes_analyzeAll (fun f hf => h f (List.dropLast_subset _ hf)) _) fun _ => ?_
    refine andThen (hasPart (h last (List.mem_of_getLast? hlast)) e) fun _ => ?_
    exact .pure _

theorem composes_analyzeBody {exprs : List Form} (h : ∀ f ∈ exprs, form.HasPart f) (e : Env) :
    recurse.Composes form (analyzeBody recurse exprs e) :=
  composes_analyzeSequence h _ e true

theorem composes_wrapMetadata {n : Node} (h : n.form = form) :
    recurse.Composes form (wrapMetadata recurse n) := by
  unfold wrapMetadata
  dsimp only
  split
  · exact .pure _
  · rw [h]
    exact andThen (.hasPart ⟨[], .metadata form⟩ _) fun _ => .pure _

theorem composes_analyzeItems (op : List Node → Op) {items : List Form}
    (h : ∀ f ∈ items, f ∈ form.elems) (e : Env) :
    recurse.Composes form (analyzeItems recurse op form items e) := by
  unfold analyzeItems
  refine andThen (composes_analyzeAll (fun f hf => Form.hasPart_of_mem (h f hf)) _) fun nodes => ?_
  exact composes_wrapMetadata rfl

theorem composes_analyzeEntries {entries : List (Form × Form)}
    (h : ∀ entry ∈ entries, form.HasPart entry.1 ∧ form.HasPart entry.2) (e : Env) :
    recurse.Composes form (analyzeEntries recurse e entries) := by
  induction entries with
  | nil => exact .pure _
  | cons entry entries ih =>
    obtain ⟨⟨hk, hv⟩, hrest⟩ := List.forall_mem_cons.mp h
    unfold analyzeEntries
    refine andThen (hasPart hk e) fun _ => ?_
    refine andThen (hasPart hv e) fun _ => ?_
    exact andThen (ih hrest) fun _ => .pure _

theorem Form.mem_elems_map {entries : FormMap} {m : FormMap} {entry : Form × Form}
    (h : entry ∈ entries) :
    entry.1 ∈ (Form.map entries m).elems ∧ entry.2 ∈ (Form.map entries m).elems := by
  simp only [Form.elems, List.mem_flatMap]
  exact ⟨⟨entry, h, by simp⟩, ⟨entry, h, by simp⟩⟩

theorem composes_analyzeMap (entries m : FormMap) (e : Env) :
    recurse.Composes (.map entries m) (analyzeMap recurse (.map entries m) entries e) := by
  unfold analyzeMap
  refine andThen (composes_analyzeEntries (fun entry he => ?_) _) fun _ =>
    composes_wrapMetadata rfl
  obtain ⟨hk, hv⟩ := Form.mem_elems_map (m := m) he
  exact ⟨Form.hasPart_of_mem hk, Form.hasPart_of_mem hv⟩

section Arguments

variable {args : List Form}

theorem composes_analyzeQuote (h : form.Calls "quote" args) (e : Env) :
    recurse.Composes form (analyzeQuote form args e) := by
  unfold analyzeQuote
  split
  · exact .pure _
  · rename_i hne
    refine .self ⟨args, h, rfl, eq_false_of_ne_true fun hadmits => ?_⟩
    obtain ⟨f, rfl⟩ := List.length_eq_one_iff.mp (Arity.admits_exactly_iff.mp hadmits)
    exact hne f rfl

theorem composes_analyzeVar (h : form.Calls "var" args) (e : Env) :
    recurse.Composes form (analyzeVar form args e) := by
  unfold analyzeVar
  split
  · split
    · refine andThen .directory fun d => ?_
      split
      · exact .pure _
      · exact .self trivial
    · exact .self trivial
  · rename_i hne
    refine .self ⟨args, h, rfl, eq_false_of_ne_true fun hadmits => ?_⟩
    obtain ⟨f, rfl⟩ := List.length_eq_one_iff.mp (Arity.admits_exactly_iff.mp hadmits)
    exact hne f rfl

theorem composes_analyzeThrow (h : form.Calls "throw" args) (e : Env) :
    recurse.Composes form (analyzeThrow recurse form args e) := by
  unfold analyzeThrow
  split
  · exact andThen (.hasPart (h.hasPart _ (by simp)) _) fun _ => .pure _
  · rename_i hne
    refine .self ⟨args, h, rfl, eq_false_of_ne_true fun hadmits => ?_⟩
    obtain ⟨f, rfl⟩ := List.length_eq_one_iff.mp (Arity.admits_exactly_iff.mp hadmits)
    exact hne f rfl

theorem composes_analyzeIf (h : form.Calls "if" args) (e : Env) :
    recurse.Composes form (analyzeIf recurse form args e) := by
  unfold analyzeIf
  split
  · refine andThen (.hasPart (h.hasPart _ (by simp)) _) fun _ => ?_
    exact andThen (.hasPart (h.hasPart _ (by simp)) _) fun _ => .pure _
  · refine andThen (.hasPart (h.hasPart _ (by simp)) _) fun _ => ?_
    refine andThen (.hasPart (h.hasPart _ (by simp)) _) fun _ => ?_
    exact andThen (.hasPart (h.hasPart _ (by simp)) _) fun _ => .pure _
  · rename_i htwo hthree
    refine .self ⟨args, h, rfl, eq_false_of_ne_true fun hadmits => ?_⟩
    have hlength := Arity.admits_between_iff.mp hadmits
    match args with
    | [] | [_] | _ :: _ :: _ :: _ :: _ =>
      simp only [List.length_cons, List.length_nil] at hlength
      omega
    | [x, y] => exact absurd rfl (htwo x y)
    | [x, y, z] => exact absurd rfl (hthree x y z)

theorem composes_analyzeNew (h : form.Calls "new" args) (e : Env) :
    recurse.Composes form (analyzeNew recurse form args e) := by
  unfold analyzeNew
  split
  · refine andThen (.hasPart (h.hasPart _ (by simp)) _) fun _ => ?_
    refine andThen (composes_analyzeAll (fun f hf => ?_) _) fun _ => .pure _
    exact h.hasPart f (List.mem_cons_of_mem _ hf)
  · exact .self ⟨[], h, rfl, rfl⟩

theorem composes_analyzeAssign (h : form.Calls "set!" args) (e : Env) :
    recurse.Composes form (analyzeAssign recurse form args e) := by
  unfold analyzeAssign
  split
  · refine andThen (.hasPart (h.hasPart _ (by simp)) _) fun _ => ?_
    exact andThen (.hasPart (h.hasPart _ (by simp)) _) fun _ => .pure _
  · rename_i hne
    refine .self ⟨args, h, rfl, eq_false_of_ne_true fun hadmits => ?_⟩
    obtain ⟨x, y, rfl⟩ := List.length_eq_two.mp (Arity.admits_exactly_iff.mp hadmits)
    exact hne x y rfl

theorem Member.args_of_ofForms {member : Form} {args args' : List Form} {name : Symbol}
    (h : Member.ofForms member args = .ok (.call name args')) :
    args' = args ∨ ∀ f ∈ args', f ∈ member.elems := by
  unfold Member.ofForms at h
  split at h
  · split at h
    · cases h
    · cases h
    · cases h
  · cases h
    exact .inl rfl
  · cases h
    exact .inr fun f hf => List.mem_cons_of_mem _ hf
  · cases h

theorem Member.comparesArity_ofForms {member : Form} {args : List Form} {fault : AnalysisFault}
    (h : Member.ofForms member args = .error fault) : fault.comparesArity = false := by
  unfold Member.ofForms at h
  split at h
  · split at h <;> cases h
    rfl
  all_goals cases h
  rfl

theorem composes_analyzeDot (h : form.Calls "." args) (e : Env) :
    recurse.Composes form (analyzeDot recurse form args e) := by
  unfold analyzeDot
  split
  · rename_i target written rest
    refine andThen (.hasPart (h.hasPart _ (by simp)) _) fun _ => ?_
    have hcheck : recurse.Composes form (AnalyzerM.check form (Member.ofForms written rest)) :=
      .check (.self form) fun _ => Member.comparesArity_ofForms
    refine .bind hcheck (yields_check _ _) fun member hmember => ?_
    cases member with
    | field name => exact .pure _
    | access name => exact .pure _
    | call name args' =>
      refine andThen (composes_analyzeAll (fun f hf => ?_) _) fun _ => .pure _
      rcases Member.args_of_ofForms hmember with rfl | hargs
      · exact h.hasPart f (by simp [hf])
      · have hmem : written ∈ form.elems := h.mem _ (by simp)
        exact .inner (.member h.isCallTo hmem) (Form.hasPart_of_mem (hargs f hf))
  · rename_i hne
    refine .self ⟨args, h, rfl, ?_⟩
    match args with
    | [] | [_] => rfl
    | x :: y :: rest => exact absurd rfl (hne x y rest)

end Arguments

namespace Case

variable {f : Form} {fault : AnalysisFault}

theorem entries_eq {branches : FormMap} (h : entries f = .ok branches) :
    ∃ m, f = .map branches m := by
  unfold entries at h
  split at h
  · cases h
    exact ⟨_, rfl⟩
  · cases h

theorem pair_eq {p : Form × Form} (h : pair f = .ok p) : ∃ m, f = .vector [p.1, p.2] m := by
  unfold pair at h
  split at h
  · cases h
    exact ⟨_, rfl⟩
  · cases h

theorem comparesArity_number {argument : String} (h : number argument f = .error fault) :
    fault.comparesArity = false := by
  unfold number at h
  split at h <;> cases h
  rfl

theorem comparesArity_entries (h : entries f = .error fault) : fault.comparesArity = false := by
  unfold entries at h
  split at h <;> cases h
  rfl

theorem comparesArity_switchKind (h : switchKind f = .error fault) :
    fault.comparesArity = false := by
  unfold switchKind at h
  split at h
  · cases h
  · split at h <;> cases h
    rfl

theorem comparesArity_testKind (h : testKind f = .error fault) : fault.comparesArity = false := by
  unfold testKind at h
  split at h
  · cases h
  · split at h
    · cases h
    · split at h <;> cases h
      rfl

theorem comparesArity_pair (h : pair f = .error fault) : fault.comparesArity = false := by
  unfold pair at h
  split at h <;> cases h
  rfl

theorem composes_branches {entries : List (Form × Form)}
    (h : ∀ entry ∈ entries, ∀ test body m, entry.2 = .vector [test, body] m → form.HasPart body)
    (e : Env) : recurse.Composes form (branches recurse form e entries) := by
  induction entries with
  | nil => exact .pure _
  | cons entry entries ih =>
    obtain ⟨key, entry⟩ := entry
    obtain ⟨hentry, hrest⟩ := List.forall_mem_cons.mp h
    have hcheck : recurse.Composes form (AnalyzerM.check form (pair entry)) :=
      .check (.self form) fun _ => comparesArity_pair
    unfold branches
    refine .bind hcheck (yields_check _ _) fun pair hpair => ?_
    obtain ⟨m, hvector⟩ := pair_eq hpair
    refine andThen (.hasPart (hentry _ _ m hvector) e) fun _ => ?_
    exact andThen (ih hrest) fun _ => .pure _

end Case

section Arguments

variable {args : List Form}

theorem composes_analyzeCase (h : form.Calls "case*" args) (e : Env) :
    recurse.Composes form (analyzeCase recurse form args e) := by
  have hself : form.Blames [] form := .self form
  unfold analyzeCase
  split
  · rename_i test shift mask default entries switch tests rest
    split
    · refine andThen (.check hself fun _ => Case.comparesArity_number) fun _ => ?_
      refine andThen (.check hself fun _ => Case.comparesArity_number) fun _ => ?_
      have hcheck : recurse.Composes form (AnalyzerM.check form (Case.entries entries)) :=
        .check hself fun _ => Case.comparesArity_entries
      refine .bind hcheck (yields_check _ _) fun branches hbranches => ?_
      refine andThen (.check hself fun _ => Case.comparesArity_switchKind) fun _ => ?_
      refine andThen (.check hself fun _ => Case.comparesArity_testKind) fun _ => ?_
      refine andThen (.hasPart (h.hasPart _ (by simp)) _) fun _ => ?_
      refine andThen (Case.composes_branches (fun entry he test body m hentry => ?_) _) fun _ => ?_
      · obtain ⟨m', rfl⟩ := Case.entries_eq hbranches
        have hopens : (Form.map branches m').Opens (.vector [test, body] m) :=
          .collection (hentry ▸ (Form.mem_elems_map he).2) rfl
        refine .inner (.collection (h.mem _ (by simp)) rfl) (.inner hopens ?_)
        exact Form.hasPart_of_mem (by simp [Form.elems])
      · exact andThen (.hasPart (h.hasPart _ (by simp)) _) fun _ => .pure _
    · rename_i hrest
      refine .self ⟨_, h, rfl, ?_⟩
      simp only [List.length_cons]
      omega
  · rename_i hne
    refine .self ⟨args, h, rfl, ?_⟩
    match args with
    | [] | [_] | [_, _] | [_, _, _] | [_, _, _, _] | [_, _, _, _, _] | [_, _, _, _, _, _] => simp
    | _ :: _ :: _ :: _ :: _ :: _ :: _ :: _ => exact absurd rfl (hne _ _ _ _ _ _ _ _)

theorem mem_of_clauseArgs {clause f : Form} (h : f ∈ clauseArgs clause) : f ∈ clause.elems := by
  unfold clauseArgs at h
  split at h
  · exact List.mem_cons_of_mem _ h
  · cases h

theorem hasPart_of_clause {clause : Form} (hform : form.isCallTo "try") (h : clause ∈ form.elems)
    (hclause : TryClauses.isClause clause) : ∀ f ∈ clauseArgs clause, form.HasPart f :=
  fun _ hf => .inner (.clause hform h hclause) (Form.hasPart_of_mem (mem_of_clauseArgs hf))

theorem calls_clauseArgs {clause : Form} {op : String} (h : clause.isCallTo op) :
    clause.Calls op (clauseArgs clause) := by
  obtain ⟨args, m, m', rfl⟩ := Form.calls_of_isCallTo h
  exact ⟨m, m', rfl⟩

theorem composes_analyzeCatch {clause : Form} (hclause : clause.isCallTo "catch")
    (h : clause ∈ form.elems) (hpart : ∀ f ∈ clauseArgs clause, form.HasPart f) (e : Env) :
    recurse.Composes form (analyzeCatch recurse e clause) := by
  have hcalls := calls_clauseArgs hclause
  unfold analyzeCatch
  split
  · rename_i cls written exprs hargs
    rw [hargs] at hpart
    have hwritten : form.HasPart written := hpart written (by simp)
    split
    · split
      · refine andThen (.hasPart (hpart _ (by simp)) _) fun _ => ?_
        refine andThen (composes_analyzeBody (fun f hf => hpart f (by simp [hf])) _) fun _ => ?_
        exact .pure _
      · exact .blamed hwritten trivial
    · exact .blamed hwritten trivial
  · rename_i args hne
    refine .blamed (Form.hasPart_of_mem h) ⟨_, hcalls, rfl, ?_⟩
    match hargs : clauseArgs clause with
    | [] | [_] => rfl
    | x :: y :: rest => exact absurd hargs (hne x y rest)

theorem TryClauses.mem_split {args : List Form} (f : Form) :
    (f ∈ (split args).body → f ∈ args) ∧ (f ∈ (split args).catches → f ∈ args) ∧
      (f ∈ (split args).finallies → f ∈ args) ∧ (f ∈ (split args).strays → f ∈ args) := by
  have hclauses := List.dropWhile_sublist (fun f => !isClause f) (l := args)
  have hrest := (List.dropWhile_sublist (fun f => f.isCallTo "catch")).trans hclauses
  exact ⟨fun hf => (List.takeWhile_sublist _).subset hf,
    fun hf => ((List.takeWhile_sublist _).trans hclauses).subset hf,
    fun hf => ((List.takeWhile_sublist _).trans hrest).subset hf,
    fun hf => ((List.dropWhile_sublist _).trans hrest).subset hf⟩

theorem TryClauses.isCallTo_of_split {args : List Form} {f : Form} :
    (f ∈ (split args).catches → f.isCallTo "catch") ∧
      (f ∈ (split args).finallies → f.isCallTo "finally") :=
  ⟨List.all_eq_true.mp List.all_takeWhile f, List.all_eq_true.mp List.all_takeWhile f⟩

theorem composes_analyzeTry (h : form.Calls "try" args) (e : Env) :
    recurse.Composes form (analyzeTry recurse form args e) := by
  unfold analyzeTry
  dsimp only
  split
  · rename_i stray rest hstrays
    have hstray : stray ∈ (TryClauses.split args).strays := by simp [hstrays]
    exact .blamed (h.hasPart _ ((TryClauses.mem_split stray).2.2.2 hstray)) trivial
  · rename_i first second more hstrays hfinallies
    have hsecond : second ∈ (TryClauses.split args).finallies := by simp [hfinallies]
    exact .blamed (h.hasPart _ ((TryClauses.mem_split second).2.2.1 hsecond)) trivial
  · refine andThen (composes_analyzeBody (fun f hf => ?_) _) fun _ => ?_
    · exact h.hasPart f ((TryClauses.mem_split f).1 hf)
    · refine andThen (.mapM fun f hf => ?_) fun _ => ?_
      · have hmem := h.mem f ((TryClauses.mem_split f).2.1 hf)
        have hcatch := TryClauses.isCallTo_of_split.1 hf
        exact composes_analyzeCatch hcatch hmem
          (hasPart_of_clause h.isCallTo hmem (by simp [TryClauses.isClause, hcatch])) _
      · refine andThen (.optionMapM fun clause hclause => ?_) fun _ => .pure _
        have hfirst := List.mem_of_head? hclause
        have hmem := h.mem clause ((TryClauses.mem_split clause).2.2.1 hfirst)
        have hfinally := TryClauses.isCallTo_of_split.2 hfirst
        exact composes_analyzeBody
          (hasPart_of_clause h.isCallTo hmem (by simp [TryClauses.isClause, hfinally])) _

theorem yields_docAndInit (rest : List Form) :
    Yields (Definition.docAndInit form args rest) fun r => ∀ f ∈ r.2, f ∈ rest := by
  unfold Definition.docAndInit
  split
  · exact yields_pure (by simp)
  · exact yields_pure (by simp)
  · exact yields_pure (by simp)
  · exact yields_fail _ _
  · exact yields_fail _ _

theorem yields_definition (args : List Form) (e : Env) :
    Yields (Definition.ofArgs form args e) fun d =>
      (∃ name m doc init, .symbol name m ∈ args ∧ d = Definition.ofParts name m doc init) ∧
        ∀ f ∈ d.init, f ∈ args := by
  unfold Definition.ofArgs
  split
  · exact yields_fail _ _
  · rename_i name m rest
    split
    · refine yields_bind (yields_docAndInit rest) fun r hr => ?_
      refine yields_pure ⟨⟨name, m, r.1, r.2, by simp, rfl⟩, fun f hf => ?_⟩
      exact List.mem_cons_of_mem _ (hr f hf)
    · exact yields_fail _ _
  · exact yields_fail _ _

theorem composes_docAndInit {name : Form} {rest : List Form} (h : form.Calls "def" (name :: rest)) :
    recurse.Composes form (Definition.docAndInit form (name :: rest) rest) := by
  unfold Definition.docAndInit
  split
  · exact .pure _
  · exact .pure _
  · exact .pure _
  · exact .self trivial
  · rename_i hnone hone _ htwo
    refine .self ⟨_, h, rfl, eq_false_of_ne_true fun hadmits => ?_⟩
    have hlength := Arity.admits_between_iff.mp hadmits
    match rest with
    | [] => exact absurd rfl hnone
    | [init] => exact absurd rfl (hone init)
    | [x, y] => exact absurd rfl (htwo x y)
    | _ :: _ :: _ :: _ =>
      simp only [List.length_cons] at hlength
      omega

theorem composes_definition (h : form.Calls "def" args) (e : Env) :
    recurse.Composes form (Definition.ofArgs form args e) := by
  unfold Definition.ofArgs
  split
  · exact .self ⟨_, h, rfl, rfl⟩
  · split
    · exact andThen (composes_docAndInit h) fun _ => .pure _
    · exact .self trivial
  · exact .self trivial

theorem composes_analyzeDef (h : form.Calls "def" args) (e : Env) :
    recurse.Composes form (analyzeDef recurse form args e) := by
  unfold analyzeDef
  refine .bind (composes_definition h e) (yields_definition args e) fun d hd => ?_
  obtain ⟨⟨name, m, doc, init, hname, hparts⟩, hinit⟩ := hd
  refine andThen (.intern _ _ _ h.isCallTo) fun var => ?_
  have hrest (metadata : Option Node) : recurse.Composes form (do
      let init ← d.init.mapM (recurse · (e.withContext .expr))
      return Node.of (.define var d.doc metadata init) form e) :=
    andThen (.optionMapM fun f hf => .hasPart (h.hasPart f (hinit f hf)) _) fun _ => .pure _
  dsimp only
  split
  · exact andThen (.pure _) hrest
  · have hpart : form.HasPart (.map d.metadataExpr []) :=
      ⟨[], hparts ▸ .definition doc init (h.mem _ hname)⟩
    exact andThen (.map (.hasPart hpart _)) hrest

end Arguments

end LispFront
