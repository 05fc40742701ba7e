import LispFront.Proofs.Analysis.Counter
import LispFront.Proofs.Analysis.Grammar.Binders

/-!
# How deep trees get

Only the levels of an analysis are counted, and a construct may put several nodes on top of what its
parts came out as. It puts four there at most: metadata, a function, a method and the body of that.
So a tree is at most four times as deep as there are levels, and so is any recursion over it.
-/

namespace LispFront

open AnalyzerM

namespace Node

/-- No path down from the node has more than `h` nodes on it. -/
def Low (h : Nat) (n : Node) : Prop := ∀ hops m, n.Path hops m → hops.length < h

namespace Low

variable {h k : Nat} {n m : Node}

theorem mono (hn : n.Low h) (hk : h ≤ k) : n.Low k := by
  intro hops m p
  have hlength := hn hops m p
  omega

theorem pos (hn : n.Low h) : 0 < h := hn [] n (.here n)

theorem of_slots (hs : InSlots (fun _ => Low h) n.children) : n.Low (h + 1) := by
  intro hops m p
  cases p with
  | here => exact Nat.succ_pos h
  | down hm p =>
    have hlength := hs.holds hm _ _ p
    rw [List.length_cons]
    omega

theorem congr (hn : n.Low h) (hop : m.op = n.op) : m.Low h := by
  intro hops r p
  cases p with
  | here => exact hn.pos
  | @down _ c _ slot i hops hm p =>
    have hc : n.Holds slot i c := by simpa [Holds, children, hop] using hm
    exact hn (⟨n, slot, i, c⟩ :: hops) r (.down hc p)

theorem nil (e : Env) : (constant .nil e).Low 1 := of_slots .nil

theorem constant (f : Form) (e : Env) : (LispFront.constant f e).Low 2 := by
  apply of_slots
  apply InSlots.opt
  intro n hn
  unfold metadataConstant? at hn
  split at hn
  · cases hn
  · cases hn
    exact of_slots .nil

theorem binding {b : Binding} (hb : b.init = none) (f : Form) (e : Env) :
    (Node.of (.binding b) f e).Low 1 := by
  apply of_slots
  apply InSlots.opt
  simp [hb]

end Low

end Node

open Node (Low)

def Recurse.Low (h : Nat) (recurse : Recurse) : Prop := ∀ f e, Yields (recurse f e) (Node.Low h)

theorem Recurse.Low.mono {h k : Nat} {recurse : Recurse} (hr : recurse.Low h) (hk : h ≤ k) :
    recurse.Low k :=
  fun f e => yields_mono (hr f e) fun _ hn => hn.mono hk

section Parts

variable {h : Nat} {recurse : Recurse} (hr : recurse.Low h)
include hr

theorem low_analyzeAll (forms : List Form) (e : Env) :
    Yields (analyzeAll recurse forms e) fun ns => ∀ n ∈ ns, n.Low h :=
  yields_mapM fun f _ => hr f e

theorem low_analyzeSequence (hh : 0 < h) (form : Form) (exprs : List Form) (e : Env)
    (body : Bool) : Yields (analyzeSequence recurse form exprs e body) (Low (h + 1)) := by
  unfold analyzeSequence
  split
  · -- the node for the missing result comes from no level below, hence `hh`
    exact yields_pure (.of_slots (.many nofun (.one ((Low.nil e).mono hh) .nil)))
  · refine yields_bind (low_analyzeAll hr _ _) fun statements hs => ?_
    refine yields_bind (hr _ _) fun ret ht => ?_
    exact yields_pure (.of_slots (.many hs (.one ht .nil)))

theorem low_analyzeBody (hh : 0 < h) (exprs : List Form) (e : Env) :
    Yields (analyzeBody recurse exprs e) (Low (h + 1)) :=
  low_analyzeSequence hr hh _ exprs e true

theorem low_analyzeMethod (hh : 0 < h) (e : Env) (form : Form) :
    Yields (analyzeMethod recurse e form) (Low (h + 2)) := by
  unfold analyzeMethod
  split
  · refine yields_bind yields_true fun params _ => ?_
    refine yields_bind (yields_check _ _) fun bindings hbs => ?_
    refine yields_bind yields_true fun id _ => ?_
    refine yields_bind (low_analyzeBody hr hh _ _) fun body hb => ?_
    refine yields_pure (.of_slots (.many ?_ (.one hb .nil)))
    intro n hn
    obtain ⟨⟨p, b⟩, hzip, rfl⟩ := List.mem_map.mp hn
    have hinit := Params.bindings_init hbs b (List.of_mem_zip hzip).2
    exact (Low.binding hinit _ _).mono (by omega)
  · exact yields_fail _ _
  · exact yields_fail _ _
  · exact yields_fail _ _

theorem low_analyzeCatch (hh : 0 < h) (e : Env) (form : Form) :
    Yields (analyzeCatch recurse e form) (Low (h + 2)) := by
  unfold analyzeCatch
  split
  · split
    · split
      · refine yields_bind (hr _ _) fun cls hc => ?_
        refine yields_bind (low_analyzeBody hr hh _ _) fun body hb => ?_
        refine yields_pure (.of_slots (.one (hc.mono (by omega)) (.one ?_ (.one hb .nil))))
        exact (Low.binding rfl _ _).mono (by omega)
      · exact yields_fail _ _
    · exact yields_fail _ _
  · exact yields_fail _ _

theorem low_branches (hh : 1 < h) (form : Form) (e : Env) (entries : List (Form × Form)) :
    Yields (Case.branches recurse form e entries) fun ns => ∀ n ∈ ns, n.Low (h + 1) := by
  induction entries with
  | nil => exact yields_pure nofun
  | cons entry entries ih =>
    unfold Case.branches
    refine yields_bind yields_true fun pair _ => ?_
    refine yields_bind (hr _ _) fun body hb => ?_
    refine yields_bind ih fun ns hs => ?_
    refine yields_pure (List.forall_mem_cons.mpr ⟨?_, hs⟩)
    have htest := (Low.constant pair.1 (e.withContext .expr)).mono hh
    exact .of_slots (.many (by simpa using htest) (.one hb .nil))

theorem low_analyzeEntries (e : Env) (entries : List (Form × Form)) :
    Yields (analyzeEntries recurse e entries) fun ns =>
      (∀ n ∈ ns.1, n.Low h) ∧ ∀ n ∈ ns.2, n.Low h := by
  induction entries with
  | nil => exact yields_pure ⟨nofun, nofun⟩
  | cons entry entries ih =>
    unfold analyzeEntries
    refine yields_bind (hr _ _) fun key hk => ?_
    refine yields_bind (hr _ _) fun val hv => ?_
    refine yields_bind ih fun ns hs => ?_
    exact yields_pure ⟨List.forall_mem_cons.mpr ⟨hk, hs.1⟩, List.forall_mem_cons.mpr ⟨hv, hs.2⟩⟩

theorem low_bindInTurn (kind : LocalKind) (pairs : List BindingPair) (e : Env) :
    Yields (bindInTurn recurse kind pairs e) fun r => ∀ n ∈ r.1, n.Low (h + 1) := by
  induction pairs generalizing e with
  | nil => exact yields_pure nofun
  | cons p ps ih =>
    unfold bindInTurn
    refine yields_bind (hr _ _) fun init hi => ?_
    refine yields_bind (ih _) fun r hs => ?_
    exact yields_pure (List.forall_mem_cons.mpr ⟨.of_slots (.one hi .nil), hs⟩)

theorem low_letfnBindings (e : Env) (pairs : List BindingPair) :
    Yields (letfnBindings recurse e pairs) fun bound =>
      ∀ r ∈ bound, (r.1.bindingNode r.2 e).Low (h + 1) := by
  induction pairs with
  | nil => exact yields_pure nofun
  | cons p ps ih =>
    unfold letfnBindings
    refine yields_bind (hr _ _) fun init hi => ?_
    refine yields_bind ih fun bound hs => ?_
    exact yields_pure (List.forall_mem_cons.mpr ⟨.of_slots (.one hi .nil), hs⟩)

end Parts

theorem low_analyzeQuote (h : Nat) (form : Form) (args : List Form) (e : Env) :
    Yields (analyzeQuote form args e) (Low (h + 4)) := by
  unfold analyzeQuote
  split
  · exact yields_pure (.of_slots (.one ((Low.constant _ _).mono (by omega)) .nil))
  · exact yields_fail _ _

theorem low_analyzeVar (h : Nat) (form : Form) (args : List Form) (e : Env) :
    Yields (analyzeVar form args e) (Low (h + 4)) := by
  unfold analyzeVar
  split
  · split
    · refine yields_bind yields_true fun d _ => ?_
      split
      · exact yields_pure (.of_slots .nil)
      · exact yields_fail _ _
    · exact yields_fail _ _
  · exact yields_fail _ _

section Constructs

variable {h : Nat} {recurse : Recurse} (hr : recurse.Low h) (form : Form) (args : List Form)
  (e : Env)
include hr

theorem Recurse.Low.lift (k : Nat) : recurse.Low (h + k) := hr.mono (Nat.le_add_right h k)

omit form e in
/-- There is metadata on top only where something came out below, so that `h` is not zero. -/
theorem low_wrapMetadata {n : Node} (hn : n.Low (max h 1 + 3)) :
    Yields (wrapMetadata recurse n) (Low (h + 4)) := by
  unfold wrapMetadata
  dsimp only
  split
  · exact yields_pure (hn.mono (by omega))
  · refine yields_bind (hr _ _) fun metadata hm => ?_
    have hpos := hm.pos
    have hexpr := hn.congr (m := { n with env := n.env.withContext .expr }) rfl
    refine yields_pure (.of_slots (.one (hm.mono (by omega)) (.one (hexpr.mono (by omega)) .nil)))

theorem low_analyzeItems (op : List Node → Op) (items : List Form)
    (hop : ∀ nodes, (op nodes).children = [(.items, .many nodes)]) :
    Yields (analyzeItems recurse op form items e) (Low (h + 4)) := by
  unfold analyzeItems
  refine yields_bind (low_analyzeAll hr _ _) fun nodes hs => ?_
  refine low_wrapMetadata hr (.of_slots ?_)
  rw [Node.children, Node.of, hop]
  exact .many (fun n hn => (hs n hn).mono (by omega)) .nil

theorem low_analyzeMap (entries : FormMap) :
    Yields (analyzeMap recurse form entries e) (Low (h + 4)) := by
  unfold analyzeMap
  refine yields_bind (low_analyzeEntries hr _ _) fun ns hs => ?_
  refine low_wrapMetadata hr (.of_slots (.many ?_ (.many ?_ .nil)))
  · exact fun n hn => (hs.1 n hn).mono (by omega)
  · exact fun n hn => (hs.2 n hn).mono (by omega)

theorem low_analyzeFn (head : Form) :
    Yields (analyzeFn recurse form head args e) (Low (h + 4)) := by
  have hmethod := low_analyzeMethod (hr.mono (Nat.le_max_left h 1)) (Nat.le_max_right h 1)
  unfold analyzeFn
  refine yields_bind (kind_of_functionName _ _) fun r hname => ?_
  obtain ⟨self, rest⟩ := r
  refine yields_bind (yields_mapM fun f _ => hmethod _ f) fun methods hs => ?_
  refine yields_bind yields_true fun r _ => ?_
  refine low_wrapMetadata hr (.of_slots (.append (.opt ?_) (.many hs .nil)))
  intro n hn
  obtain ⟨⟨written, b⟩, hb, rfl⟩ := Option.map_eq_some_iff.mp hn
  exact (Low.binding (hname _ hb).2 written e).mono (by omega)

theorem low_analyzeIf : Yields (analyzeIf recurse form args e) (Low (h + 4)) := by
  have hr := hr.lift 3
  unfold analyzeIf
  split
  · refine yields_bind (hr _ _) fun test ht => ?_
    refine yields_bind (hr _ _) fun onTrue ha => ?_
    exact yields_pure (.of_slots (.one ht (.one ha (.one ((Low.nil e).mono (by omega)) .nil))))
  · refine yields_bind (hr _ _) fun test ht => ?_
    refine yields_bind (hr _ _) fun onTrue ha => ?_
    refine yields_bind (hr _ _) fun onFalse hb => ?_
    exact yields_pure (.of_slots (.one ht (.one ha (.one hb .nil))))
  · exact yields_fail _ _

theorem low_analyzeNew : Yields (analyzeNew recurse form args e) (Low (h + 4)) := by
  have hr := hr.lift 3
  unfold analyzeNew
  split
  · refine yields_bind (hr _ _) fun cls hc => ?_
    refine yields_bind (low_analyzeAll hr _ _) fun args ha => ?_
    exact yields_pure (.of_slots (.one hc (.many ha .nil)))
  · exact yields_fail _ _

theorem low_analyzeAssign : Yields (analyzeAssign recurse form args e) (Low (h + 4)) := by
  have hr := hr.lift 3
  unfold analyzeAssign
  split
  · refine yields_bind (hr _ _) fun target ht => ?_
    refine yields_bind (hr _ _) fun val hv => ?_
    exact yields_pure (.of_slots (.one ht (.one hv .nil)))
  · exact yields_fail _ _

theorem low_analyzeThrow : Yields (analyzeThrow recurse form args e) (Low (h + 4)) := by
  unfold analyzeThrow
  split
  · refine yields_bind (hr.lift 3 _ _) fun exception he => ?_
    exact yields_pure (.of_slots (.one he .nil))
  · exact yields_fail _ _

theorem low_analyzeTry : Yields (analyzeTry recurse form args e) (Low (h + 4)) := by
  have hbody := low_analyzeBody (hr.lift 2) (by omega)
  have hcatch := low_analyzeCatch (hr.lift 1) (by omega)
  unfold analyzeTry
  dsimp only
  split
  · exact yields_fail _ _
  · exact yields_fail _ _
  · refine yields_bind (hbody _ _) fun body hb => ?_
    refine yields_bind (yields_mapM fun f _ => hcatch _ f) fun catches hc => ?_
    refine yields_bind (yields_optionMapM fun f => hbody _ _) fun cleanup hf => ?_
    exact yields_pure (.of_slots (.one hb (.many hc (.opt hf))))

theorem low_analyzeDef : Yields (analyzeDef recurse form args e) (Low (h + 4)) := by
  have hr := hr.lift 3
  unfold analyzeDef
  refine yields_bind yields_true fun d _ => ?_
  refine yields_bind yields_true fun var _ => ?_
  have hrest (metadata : Option Node) (hm : ∀ n ∈ metadata, n.Low (h + 3)) : Yields (do
      let init ← d.init.mapM (recurse · (e.withContext .expr))
      return .of (.define var d.doc metadata init) form e) (Low (h + 4)) := by
    refine yields_bind (yields_optionMapM fun f => hr f _) fun init hi => ?_
    exact yields_pure (.of_slots (.append (.opt hm) (.opt hi)))
  dsimp only
  split
  · exact yields_bind (yields_pure (by simp)) hrest
  · refine yields_bind (yields_map (yields_mono (hr _ _) fun n hn => ?_)) hrest
    simpa using hn

theorem low_analyzeDot : Yields (analyzeDot recurse form args e) (Low (h + 4)) := by
  have hr := hr.lift 3
  unfold analyzeDot
  split
  · refine yields_bind (hr _ _) fun target ht => ?_
    refine yields_bind yields_true fun member _ => ?_
    cases member with
    | field name => exact yields_pure (.of_slots (.one ht .nil))
    | access name => exact yields_pure (.of_slots (.one ht .nil))
    | call name args =>
      refine yields_bind (low_analyzeAll hr _ _) fun args ha => ?_
      exact yields_pure (.of_slots (.one ht (.many ha .nil)))
  · exact yields_fail _ _

theorem low_analyzeLet : Yields (analyzeLet recurse form args e) (Low (h + 4)) := by
  have hr := hr.lift 2
  unfold analyzeLet
  refine yields_bind yields_true fun r _ => ?_
  refine yields_bind (low_bindInTurn hr _ _ _) fun r hs => ?_
  refine yields_bind (low_analyzeBody hr (by omega) _ _) fun body hb => ?_
  exact yields_pure (.of_slots (.many hs (.one hb .nil)))

theorem low_analyzeLoop : Yields (analyzeLoop recurse form args e) (Low (h + 4)) := by
  have hr := hr.lift 2
  unfold analyzeLoop
  refine yields_bind yields_true fun id _ => ?_
  refine yields_bind yields_true fun r _ => ?_
  refine yields_bind (low_bindInTurn hr _ _ _) fun r hs => ?_
  refine yields_bind (low_analyzeBody hr (by omega) _ _) fun body hb => ?_
  exact yields_pure (.of_slots (.many hs (.one hb .nil)))

theorem low_analyzeLetfn : Yields (analyzeLetfn recurse form args e) (Low (h + 4)) := by
  have hr := hr.lift 2
  unfold analyzeLetfn
  refine yields_bind yields_true fun r _ => ?_
  dsimp only
  split
  · exact yields_fail _ _
  · refine yields_bind (low_letfnBindings hr _ _) fun bound hs => ?_
    refine yields_bind (low_analyzeBody hr (by omega) _ _) fun body hb => ?_
    exact yields_pure (.of_slots (.many (List.forall_mem_map.mpr hs) (.one hb .nil)))

theorem low_analyzeRecur : Yields (analyzeRecur recurse form args e) (Low (h + 4)) := by
  unfold analyzeRecur
  split
  · split
    · exact yields_fail _ _
    · split
      · refine yields_bind (low_analyzeAll (hr.lift 3) _ _) fun exprs he => ?_
        exact yields_pure (.of_slots (.many he .nil))
      · exact yields_fail _ _
  · exact yields_fail _ _

theorem low_analyzeCase : Yields (analyzeCase recurse form args e) (Low (h + 4)) := by
  unfold analyzeCase
  split
  · split
    · refine yields_bind yields_true fun _ _ => ?_
      refine yields_bind yields_true fun _ _ => ?_
      refine yields_bind yields_true fun _ _ => ?_
      refine yields_bind yields_true fun _ _ => ?_
      refine yields_bind yields_true fun _ _ => ?_
      refine yields_bind (hr.lift 3 _ _) fun test ht => ?_
      refine yields_bind (low_branches (hr.lift 2) (by omega) _ _ _) fun branches hs => ?_
      refine yields_bind (hr.lift 3 _ _) fun default hd => ?_
      exact yields_pure (.of_slots (.one ht (.many hs (.one hd .nil))))
    · exact yields_fail _ _
  · exact yields_fail _ _

theorem low_analyzeInvoke (head : Form) :
    Yields (Analyzer.analyzeInvoke recurse form head args e) (Low (h + 4)) := by
  have hr := hr.lift 3
  unfold Analyzer.analyzeInvoke
  refine yields_bind (hr _ _) fun fn hf => ?_
  refine yields_bind (low_analyzeAll hr _ _) fun args ha => ?_
  exact yields_pure (.of_slots (.one hf (.many ha .nil)))

omit args in
theorem low_analyzeExpansion (expansion : Form) :
    Yields (Analyzer.analyzeExpansion recurse form expansion e) (Low (h + 4)) := by
  unfold Analyzer.analyzeExpansion
  refine yields_bind (hr.lift 4 _ _) fun n hn => ?_
  exact yields_pure (hn.congr rfl)

theorem low_analyzeCall (head : Form) :
    Yields (Analyzer.analyzeCall recurse form head args e) (Low (h + 4)) := by
  unfold Analyzer.analyzeCall
  split
  · exact low_analyzeInvoke hr form args e head
  · exact low_analyzeSequence (hr.lift 3) (by omega) form args e false
  · exact low_analyzeIf hr form args e
  · exact low_analyzeNew hr form args e
  · exact low_analyzeQuote h form args e
  · exact low_analyzeAssign hr form args e
  · exact low_analyzeTry hr form args e
  · exact low_analyzeThrow hr form args e
  · exact low_analyzeDef hr form args e
  · exact low_analyzeDot hr form args e
  · exact low_analyzeLet hr form args e
  · exact low_analyzeLetfn hr form args e
  · exact low_analyzeLoop hr form args e
  · exact low_analyzeRecur hr form args e
  · exact low_analyzeFn hr form args e head
  · exact low_analyzeVar h form args e
  · exact low_analyzeCase hr form args e

end Constructs

section Level

variable {h : Nat}

theorem low_analyzeName (a : Analyzer) (form : Form) (s : Symbol) (e : Env) :
    Yields (a.analyzeName form s e) (Low (h + 4)) := by
  unfold Analyzer.analyzeName
  split
  · exact yields_pure (.of_slots .nil)
  · refine yields_bind yields_true fun d _ => ?_
    split
    · exact yields_pure (.of_slots .nil)
    · split
      · exact yields_pure (.of_slots .nil)
      · split
        · exact yields_pure (.of_slots .nil)
        · exact yields_fail _ _

variable {recurse : Recurse} (hr : recurse.Low h) (a : Analyzer) (form : Form) (e : Env)
include hr

theorem low_analyzeSymbol (s : Symbol) :
    Yields (a.analyzeSymbol recurse form s e) (Low (h + 4)) := by
  unfold Analyzer.analyzeSymbol
  refine yields_bind yields_true fun expansion _ => ?_
  split
  · exact low_analyzeName a form s e
  · exact low_analyzeExpansion hr form e _

theorem low_analyzeList (head : Form) (args : List Form) :
    Yields (a.analyzeList recurse form head args e) (Low (h + 4)) := by
  unfold Analyzer.analyzeList
  split
  · exact yields_fail _ _
  · refine yields_bind yields_true fun expansion _ => ?_
    refine yields_within form ?_
    split
    · exact low_analyzeCall hr form args e head
    · exact low_analyzeExpansion hr form e _

theorem low_analyzeLevel : Yields (a.analyzeLevel recurse form e) (Low (h + 4)) := by
  unfold Analyzer.analyzeLevel
  split
  · exact low_analyzeSymbol hr a _ e _
  · exact low_analyzeList hr a _ e _ _
  · exact low_analyzeItems hr _ e .vector _ fun _ => rfl
  · exact low_analyzeMap hr _ e _
  · exact low_analyzeItems hr _ e .set _ fun _ => rfl
  · exact yields_pure ((Low.constant _ _).mono (by omega))

end Level

theorem analyzeUpTo_low (a : Analyzer) (levels : Nat) :
    Recurse.Low (4 * levels) (a.analyzeUpTo levels) := by
  induction levels with
  | zero => exact fun f e => yields_fail _ _
  | succ levels ih => exact fun f e => low_analyzeLevel ih a f e

/-- On no path down a tree are there more than four nodes for each level of the analysis. -/
theorem height_of_analyzeIn {a : Analyzer} {form : Form} {env : Env} {s t : Store} {n : Node}
    (h : (a.analyzeIn form env).run.run s = (.ok n, t)) :
    ∀ hops m, n.Path hops m → hops.length + 1 ≤ 4 * a.maxDepth :=
  analyzeUpTo_low a a.maxDepth form env _ n _ (Analyzer.run_analyzeIn_iff.mp h)

theorem height_of_let :
    ∃ n t hops m, (Analyzer.analyzeIn { home := .plain "user", maxDepth := 1 }
        (.call "let*" [.vector [] []]) (.empty (.plain "user"))).run.run ⟨.empty, .start⟩ =
        (.ok n, t) ∧
      n.Path hops m ∧ hops.length + 1 = 3 ∧
      ∀ hops m, n.Path hops m → hops.length + 1 ≤ 4 * 1 := by
  obtain ⟨n, t, hops, m, h, p, hlength⟩ : ∃ n t hops m,
      (Analyzer.analyzeIn { home := .plain "user", maxDepth := 1 }
        (.call "let*" [.vector [] []]) (.empty (.plain "user"))).run.run ⟨.empty, .start⟩ =
        (.ok n, t) ∧
      n.Path hops m ∧ hops.length + 1 = 3 :=
    ⟨_, _, _, _, rfl, Node.path_of_descend? [(.body, 0), (.ret, 0)] rfl, rfl⟩
  exact ⟨n, t, hops, m, h, p, hlength, height_of_analyzeIn h⟩

end LispFront
