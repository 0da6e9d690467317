/-
# The walk of the resolver visits the sites

`resolve` walks over a program with a stack of local scopes that it opens, fills and closes on the
way.  Here the stack is compared with the list of sites: at each step of the walk, the scopes hold
just what the sites passed so far declare in the regions around the current one (`Agrees`).

`Visits` says of a step that it passes some sites: it keeps the scopes and the sites in agreement,
reports the errors at these sites, and if there are none, files the hops that can be read off them.
§3 goes through the steps, §4 through expressions and statements, one case for each construct, and
`resolve_eq` is the result for a whole program.
-/
import Lox.Proofs.Scoping.Resolve
import Lox.Proofs.Scoping.Site

namespace Lox

open Resolve (bind report)

/-! ## 1. Sites that have been passed

What a site is found to be depends on the sites before it.  So lists of sites are taken with those
in front. -/

namespace Region

variable {region : Region} {earlier sites : List Site} {name : String}

/-- A region declares a name at one of the earlier sites or at one of the later ones. -/
theorem declares_append :
    region.Declares (earlier ++ sites) name ↔ region.Declares earlier name ∨
      ∃ site ∈ sites, site.kind = .declares ∧ site.name.text = name ∧
        site.regions.head? = some region := by
  simp only [Declares, List.mem_append, or_assoc]
  constructor
  · rintro (bound | ⟨site, hold | hnew, declares⟩)
    · exact Or.inl bound
    · exact Or.inr (Or.inl ⟨site, hold, declares⟩)
    · exact Or.inr (Or.inr ⟨site, hnew, declares⟩)
  · rintro (bound | ⟨site, hold, declares⟩ | ⟨site, hnew, declares⟩)
    · exact Or.inl bound
    · exact Or.inr ⟨site, Or.inl hold, declares⟩
    · exact Or.inr ⟨site, Or.inr hnew, declares⟩

/-- What has been declared stays so. -/
theorem Declares.append (h : region.Declares earlier name) (sites : List Site) :
    region.Declares (earlier ++ sites) name :=
  declares_append.2 (Or.inl h)

/-- Only declarations that stand directly in a region count for it. -/
theorem declares_append_of (other : ∀ site ∈ sites, site.kind = .declares →
      site.regions.head? ≠ some region) :
    region.Declares (earlier ++ sites) name ↔ region.Declares earlier name := by
  rw [declares_append]
  refine or_iff_left ?_
  rintro ⟨site, mem, declares, -, head⟩
  exact other site mem declares head

end Region

namespace Site

/-- The static errors at sites, given those before them. -/
def errorsFrom (earlier : List Site) : List Site → List ResolutionError
  | [] => []
  | site :: rest => (site.error? earlier).toList ++ errorsFrom (earlier ++ [site]) rest

/-- Files what can be read off a site. -/
def file (site : Site) (earlier : List Site) (resolution : Resolution) : Resolution :=
  match site.id?, site.hops? earlier with
  | some id, some hops => resolution.insert id hops
  | _, _ => resolution

/-- Files what can be read off sites, given those before them. -/
def fileFrom (earlier : List Site) : List Site → Resolution → Resolution
  | [], resolution => resolution
  | site :: rest, resolution => fileFrom (earlier ++ [site]) rest (site.file earlier resolution)

/-- Two lists of sites, where the second is judged with the first in front of it. -/
theorem errorsFrom_append (earlier sites sites' : List Site) :
    errorsFrom earlier (sites ++ sites') =
      errorsFrom earlier sites ++ errorsFrom (earlier ++ sites) sites' := by
  induction sites generalizing earlier with
  | nil => simp [errorsFrom]
  | cons site rest ih => simp [errorsFrom, ih]

theorem fileFrom_append (earlier sites sites' : List Site) (resolution : Resolution) :
    fileFrom earlier (sites ++ sites') resolution =
      fileFrom (earlier ++ sites) sites' (fileFrom earlier sites resolution) := by
  induction sites generalizing earlier resolution with
  | nil => simp [fileFrom]
  | cons site rest ih => simp [fileFrom, ih]

/-- A single site has one error or none. -/
theorem errorsFrom_singleton (earlier : List Site) (site : Site) :
    errorsFrom earlier [site] = (site.error? earlier).toList := by
  simp [errorsFrom]

end Site

/-! ## 2. Scopes that show what regions declare

The invariant of the walk: its stack is a picture of the regions around and of what they have
declared so far. -/

/-- The `var` whose initializer the walk is in. -/
abbrev Pending := Option String

/-- A stack of scopes holds what is declared in some regions.  All names are ready but that of the
`var` whose initializer is being walked over, which stands in the innermost scope. -/
def Mirrors (earlier : List Site) : Pending → List Region → List LocalScope → Prop
  | _, [], [] => True
  | pending, region :: outer, scope :: rest =>
    (∀ name, scope.get? name =
      if region.Declares earlier name then some (decide (pending ≠ some name)) else none) ∧
      Mirrors earlier none outer rest
  | _, _, _ => False

namespace Mirrors

variable {earlier : List Site} {pending : Pending} {regions : List Region}
  {scopes : List LocalScope}

/-- A scope holds a name just if its region declares it. -/
theorem contains_iff {region : Region} {scope : LocalScope} {name : String}
    (h : scope.get? name =
      if region.Declares earlier name then some (decide (pending ≠ some name)) else none) :
    scope.contains name = decide (region.Declares earlier name) := by
  rw [Bindings.contains, h]
  split <;> simp [*]

/-- A name is found as many scopes out as its region lies. -/
theorem hops?_eq (h : Mirrors earlier pending regions scopes) (name : String) :
    Resolve.hops? name scopes =
      regions.findIdx? fun region => decide (region.Declares earlier name) := by
  induction regions generalizing pending scopes with
  | nil =>
    cases scopes with
    | nil => rfl
    | cons scope rest => exact h.elim
  | cons region outer ih =>
    cases scopes with
    | nil => exact h.elim
    | cons scope rest =>
      obtain ⟨here, further⟩ := h
      rw [Resolve.hops?, contains_iff (here name), List.findIdx?_cons, ih further]

/-- Sites that declare nothing in the regions do not show. -/
theorem append_of {sites : List Site} (h : Mirrors earlier pending regions scopes)
    (other : ∀ site ∈ sites, site.kind = .declares →
      ∀ region ∈ regions, site.regions.head? ≠ some region) :
    Mirrors (earlier ++ sites) pending regions scopes := by
  induction regions generalizing pending scopes with
  | nil =>
    cases scopes with
    | nil => trivial
    | cons scope rest => exact h.elim
  | cons region outer ih =>
    cases scopes with
    | nil => exact h.elim
    | cons scope rest =>
      obtain ⟨here, further⟩ := h
      refine ⟨fun name => ?_, ?_⟩
      · have same : region.Declares (earlier ++ sites) name ↔ region.Declares earlier name :=
          Region.declares_append_of fun site mem declares =>
            other site mem declares region List.mem_cons_self
        rw [here name]
        simp only [same]
      · exact ih further fun site mem declares region hregion =>
          other site mem declares region (List.mem_cons_of_mem _ hregion)

end Mirrors

/-- Where a walk is: the regions around it, and the `var` whose initializer it is in. -/
structure Frontier where
  regions : List Region
  pending : Pending

/-- The scopes of a walk agree with the sites that it has passed. -/
structure Agrees (earlier : List Site) (front : Frontier) (scopes : List LocalScope) : Prop where
  mirrors : Mirrors earlier front.pending front.regions scopes
  /-- The `var` whose initializer the walk is in has been declared. -/
  declared : ∀ name region, front.pending = some name → front.regions.head? = some region →
    region.Declares earlier name
  distinct : front.regions.Nodup

namespace Agrees

variable {earlier : List Site} {pending : Pending} {regions : List Region} {front : Frontier}
  {scopes : List LocalScope}

/-- Sites without declarations do not show. -/
theorem append_of (h : Agrees earlier front scopes) {sites : List Site}
    (quiet : ∀ site ∈ sites, site.kind ≠ .declares) : Agrees (earlier ++ sites) front scopes where
  mirrors := h.mirrors.append_of fun site mem declares => absurd declares (quiet site mem)
  declared name region hpending hhead := (h.declared name region hpending hhead).append sites
  distinct := h.distinct

/-- Whether a name may not be read yet. -/
theorem unready_iff (h : Agrees earlier ⟨regions, pending⟩ scopes) (name : String) :
    (scopes.head?.any fun scope => decide (scope.get? name = some false)) = true ↔
      pending = some name ∧ regions ≠ [] := by
  obtain ⟨mirrors, declared, -⟩ := h
  cases regions with
  | nil =>
    cases scopes with
    | nil => simp
    | cons scope rest => exact mirrors.elim
  | cons region outer =>
    cases scopes with
    | nil => exact mirrors.elim
    | cons scope rest =>
      have here := mirrors.1 name
      simp only [List.head?_cons, Option.any_some, here, decide_eq_true_eq]
      constructor
      · intro unready
        split at unready
        · refine ⟨?_, List.cons_ne_nil _ _⟩
          simpa using unready
        · cases unready
      · rintro ⟨hpending, -⟩
        rw [if_pos (declared name region hpending rfl)]
        simp [hpending]

/-- Whether a name has been declared in the innermost scope. -/
theorem taken_iff (h : Agrees earlier ⟨regions, pending⟩ scopes) (name : String) :
    (scopes.head?.any fun scope => scope.contains name) =
      regions.head?.any fun region => decide (region.Declares earlier name) := by
  obtain ⟨mirrors, -, -⟩ := h
  cases regions with
  | nil =>
    cases scopes with
    | nil => rfl
    | cons scope rest => exact mirrors.elim
  | cons region outer =>
    cases scopes with
    | nil => exact mirrors.elim
    | cons scope rest => exact Mirrors.contains_iff (mirrors.1 name)

/-- A declaration shows in the innermost scope, where the name is not ready. -/
theorem declare (h : Agrees earlier ⟨regions, none⟩ scopes) (name : Name) :
    Agrees (earlier ++ [Site.declaring regions name]) ⟨regions, some name.text⟩
      (StaticScope.enter name.text false scopes) := by
  obtain ⟨mirrors, -, distinct⟩ := h
  refine ⟨?_, ?_, distinct⟩
  · cases regions with
    | nil =>
      cases scopes with
      | nil => trivial
      | cons scope rest => exact mirrors.elim
    | cons region outer =>
      cases scopes with
      | nil => exact mirrors.elim
      | cons scope rest =>
        obtain ⟨here, further⟩ := mirrors
        obtain ⟨outside, -⟩ := List.nodup_cons.1 distinct
        refine ⟨fun other => ?_, further.append_of ?_⟩
        · rw [Bindings.get?_insert, here other]
          by_cases hname : name.text = other
          · have declares : region.Declares
                (earlier ++ [Site.declaring (region :: outer) name]) other :=
              Region.declares_append.2 (Or.inr ⟨_, List.mem_singleton_self _, rfl, hname, rfl⟩)
            rw [if_pos hname, if_pos declares]
            simp [hname]
          · have same : region.Declares (earlier ++ [Site.declaring (region :: outer) name]) other ↔
                region.Declares earlier other := by
              rw [Region.declares_append]
              refine or_iff_left ?_
              rintro ⟨site, mem, -, text, -⟩
              obtain rfl := List.mem_singleton.1 mem
              exact hname text
            rw [if_neg hname]
            simp only [same]
            split
            · simp [hname]
            · rfl
        · rintro site mem - other hother head
          obtain rfl := List.mem_singleton.1 mem
          cases head
          exact outside hother
  · rintro other region hpending hhead
    cases hpending
    exact Region.declares_append.2 (Or.inr ⟨_, List.mem_singleton_self _, rfl, rfl, hhead⟩)

/-- Behind its initializer, a `var` is ready. -/
theorem define {name : String} (h : Agrees earlier ⟨regions, some name⟩ scopes) :
    Agrees earlier ⟨regions, none⟩ (StaticScope.enter name true scopes) := by
  obtain ⟨mirrors, declared, distinct⟩ := h
  refine ⟨?_, ?_, distinct⟩
  · cases regions with
    | nil =>
      cases scopes with
      | nil => trivial
      | cons scope rest => exact mirrors.elim
    | cons region outer =>
      cases scopes with
      | nil => exact mirrors.elim
      | cons scope rest =>
        obtain ⟨here, further⟩ := mirrors
        refine ⟨fun other => ?_, further⟩
        rw [Bindings.get?_insert, here other]
        by_cases hname : name = other
        · subst hname
          rw [if_pos rfl, if_pos (declared name region rfl rfl)]
          simp
        · rw [if_neg hname]
          simp [hname]
  · rintro other region hpending -
    cases hpending

/-- A region that nothing has been declared in yet. -/
theorem push (h : Agrees earlier ⟨regions, none⟩ scopes) {region : Region} {scope : LocalScope}
    (new : region ∉ regions) (here : ∀ name, scope.get? name =
      if region.Declares earlier name then some true else none) :
    Agrees earlier ⟨region :: regions, none⟩ (scope :: scopes) where
  mirrors := ⟨by simpa using here, h.mirrors⟩
  declared := by
    rintro name _ hpending -
    cases hpending
  distinct := List.nodup_cons.2 ⟨new, h.distinct⟩

/-- To leave a region is to go back to the ones around, which have not changed. -/
theorem pop {region : Region} (h : Agrees earlier ⟨region :: regions, none⟩ scopes) :
    Agrees earlier ⟨regions, none⟩ scopes.tail := by
  obtain ⟨mirrors, -, distinct⟩ := h
  cases scopes with
  | nil => exact mirrors.elim
  | cons scope rest =>
    refine ⟨mirrors.2, ?_, (List.nodup_cons.1 distinct).2⟩
    rintro name _ hpending -
    cases hpending

end Agrees

/-! ## 3. Steps of the walk

Each step is described by its effect on the state, and then by the site that it passes. -/

/-- A step of the walk passes some sites, and leads from one place to another: the scopes agree with
the sites again, the errors at these sites are reported, and if there are none, their hops are
filed. -/
def Resolve.Visits (step : Resolve Unit) (earlier : List Site) (before : Frontier)
    (sites : List Site) (after : Frontier) : Prop :=
  ∀ state : ResolveState, Agrees earlier before state.scopes →
    Agrees (earlier ++ sites) after (step.run state).2.scopes ∧
    (step.run state).2.errors = state.errors ++ Site.errorsFrom earlier sites ∧
    (Site.errorsFrom earlier sites = [] →
      (step.run state).2.resolution = Site.fileFrom earlier sites state.resolution)

namespace Resolve

/-- What binding a name does to the state. -/
theorem run_bind (name : String) (ready : Bool) (state : ResolveState) :
    ((bind name ready).run state).2 =
      { state with scopes := StaticScope.enter name ready state.scopes } := by
  rw [bind, run_modify]
  obtain ⟨scopes, resolution, errors⟩ := state
  cases scopes <;> rfl

/-- What declaring a name does to the state: the name is entered, and reported if it has been
there. -/
theorem run_declare (name : Name) (state : ResolveState) :
    ((declare name).run state).2 =
      { state with
        scopes := StaticScope.enter name.text false state.scopes
        errors := state.errors ++
          if state.scopes.head?.any (·.contains name.text) then [⟨name, .redeclared⟩]
          else [] } := by
  have h := run_bind name.text false state
  change ((if state.scopes.head?.any (·.contains name.text) then report name .redeclared
    else pure ()).run ((bind name.text false).run state).2).2 = _
  rw [h]
  split
  · rfl
  · change ResolveState.mk _ _ _ = ResolveState.mk _ _ (state.errors ++ [])
    rw [List.append_nil]

/-- The resolution once a name that is looked up in some scopes has been filed. -/
def filing (id : Id) (name : String) (scopes : List LocalScope) (resolution : Resolution) :
    Resolution :=
  match hops? name scopes with
  | some hops => resolution.insert id hops
  | none => resolution

theorem run_file (id : Id) (name : String) (state : ResolveState) :
    ((file id name).run state).2 =
      { state with resolution := filing id name state.scopes state.resolution } := by
  rw [file, run_modify, filing]
  split <;> simp [*]

/-- What reading a variable does to the state. -/
theorem run_readVariable (v : Variable) (state : ResolveState) :
    ((readVariable v).run state).2 =
      { state with
        resolution := filing v.id v.name.text state.scopes state.resolution
        errors := state.errors ++
          if state.scopes.head?.any fun scope => decide (scope.get? v.name.text = some false) then
            [⟨v.name, .readInInitializer⟩]
          else [] } := by
  change ((if state.scopes.head?.any
      (fun scope => decide (scope.get? v.name.text = some false)) then
        (do report v.name .readInInitializer; file v.id v.name.text)
      else file v.id v.name.text : Resolve Unit).run state).2 = _
  split
  · exact run_file v.id v.name.text { state with errors := state.errors ++ [_] }
  · rw [run_file, List.append_nil]

end Resolve

namespace Resolve.Visits

variable {earlier sites sites' : List Site} {before middle after : Frontier} {x y : Resolve Unit}

/-- A step that passes no site. -/
theorem nothing (earlier : List Site) (front : Frontier) :
    Visits (pure ()) earlier front [] front := by
  intro state agrees
  refine ⟨?_, ?_, fun _ => rfl⟩
  · rw [List.append_nil]
    exact agrees
  · rw [Site.errorsFrom, List.append_nil]
    rfl

/-- Two steps that pass the sites of both.  The second is judged with the sites of the first in
front. -/
theorem andThen (hx : Visits x earlier before sites middle)
    (hy : Visits y (earlier ++ sites) middle sites' after) :
    Visits (do x; y) earlier before (sites ++ sites') after := by
  intro state agrees
  obtain ⟨agrees, errors, files⟩ := hx state agrees
  obtain ⟨agrees', errors', files'⟩ := hy _ agrees
  rw [Site.errorsFrom_append, Site.fileFrom_append]
  refine ⟨?_, ?_, ?_⟩
  · rw [← List.append_assoc]
    exact agrees'
  · rw [← List.append_assoc, ← errors]
    exact errors'
  · intro clean
    obtain ⟨first, second⟩ := List.append_eq_nil_iff.1 clean
    rw [← files first]
    exact files' second

/-- A step that passes no site, in front of another one. -/
theorem andThen_nil (hx : Visits x earlier before [] middle)
    (hy : Visits y earlier middle sites after) : Visits (do x; y) earlier before sites after := by
  refine andThen hx ?_
  rw [List.append_nil]
  exact hy

theorem andThen_last (hx : Visits x earlier before sites middle)
    (hy : Visits y (earlier ++ sites) middle [] after) :
    Visits (do x; y) earlier before sites after := by
  have both := andThen hx hy
  rw [List.append_nil] at both
  exact both

/-- A step that passes no site, and keeps the errors and the resolution. -/
theorem quiet (step : ∀ state, Agrees earlier before state.scopes →
      ∃ scopes, (x.run state).2 = { state with scopes := scopes } ∧ Agrees earlier after scopes) :
    Visits x earlier before [] after := by
  intro state agrees
  obtain ⟨scopes, hrun, agrees⟩ := step state agrees
  rw [hrun, List.append_nil]
  refine ⟨agrees, ?_, fun _ => rfl⟩
  rw [Site.errorsFrom, List.append_nil]

/-- A step that passes one site. -/
theorem one {site : Site} (step : ∀ state, Agrees earlier before state.scopes →
      Agrees (earlier ++ [site]) after (x.run state).2.scopes ∧
      (x.run state).2.errors = state.errors ++ (site.error? earlier).toList ∧
      (site.error? earlier = none →
        (x.run state).2.resolution = site.file earlier state.resolution)) :
    Visits x earlier before [site] after := by
  intro state agrees
  obtain ⟨agrees, errors, files⟩ := step state agrees
  rw [Site.errorsFrom_singleton]
  exact ⟨agrees, errors, fun clean => files (Option.toList_eq_nil_iff.1 clean)⟩

/-- A step that passes a site which declares nothing, and leaves the scopes alone. -/
theorem oneOf {site : Site} (kind : site.kind ≠ .declares) {front : Frontier}
    (step : ∀ state, Agrees earlier front state.scopes → (x.run state).2 =
      { state with
        errors := state.errors ++ (site.error? earlier).toList
        resolution := (x.run state).2.resolution } ∧
      (site.error? earlier = none →
        (x.run state).2.resolution = site.file earlier state.resolution)) :
    Visits x earlier front [site] front := by
  refine one fun state agrees => ?_
  obtain ⟨hrun, files⟩ := step state agrees
  rw [hrun]
  refine ⟨agrees.append_of fun other mem => ?_, rfl, files⟩
  obtain rfl := List.mem_singleton.1 mem
  exact kind

end Resolve.Visits

/-- The hops that are read off a site are those that are counted in the scopes. -/
theorem Site.file_eq (site : Site) {earlier : List Site} {front : Frontier}
    {scopes : List LocalScope} (agrees : Agrees earlier front scopes) {id : Id}
    (hid : site.id? = some id) (here : site.regions = front.regions) (resolution : Resolution) :
    Resolve.filing id site.name.text scopes resolution = site.file earlier resolution := by
  rw [Resolve.filing, Site.file, hid, Site.hops?, here, agrees.mirrors.hops?_eq]
  cases front.regions.findIdx? _ <;> rfl

/-! ## 4. Where code stands

The walk keeps in its context whether it is in a function or a class.  This can be read off the
regions. -/

namespace Region

/-- The context of code that stands in some regions. -/
def context (regions : List Region) : ResolveContext where
  function :=
    match function? regions with
    | none => .none
    | some (.method true) => .initializer
    | some (.method false) => .method
    | some _ => .function
  «class» :=
    match class? regions with
    | none => .none
    | some (.this false) => .base
    | some _ => .derived

variable (regions : List Region)

/-- Code stands in no class, in one without a superclass, or in one with a superclass. -/
theorem class?_cases :
    (class? regions = none ∧ (context regions).class = .none) ∨
    (class? regions = some (.this false) ∧ (context regions).class = .base) ∨
    (class? regions = some (.this true) ∧ (context regions).class = .derived) := by
  simp only [context]
  cases hclass : class? regions with
  | none => simp
  | some kind =>
    have inClass : kind.isClass = true := List.find?_some hclass
    cases kind with
    | this derived => cases derived <;> simp
    | _ => cases inClass

/-- Code stands in no function, in a plain one, in an initializer or in another method. -/
theorem function?_cases :
    (function? regions = none ∧ (context regions).function = .none) ∨
    (function? regions = some .function ∧ (context regions).function = .function) ∨
    (function? regions = some (.method true) ∧ (context regions).function = .initializer) ∨
    (function? regions = some (.method false) ∧ (context regions).function = .method) := by
  simp only [context]
  cases hfunction : function? regions with
  | none => simp
  | some kind =>
    have inFunction : kind.isFunction = true := List.find?_some hfunction
    cases kind with
    | function => simp
    | method initializer => cases initializer <;> simp
    | _ => cases inFunction

end Region

/-! ## 5. Steps that pass a site

What the walk reports at a name is the violation of the site, and what it files is the hops of the
site. -/

namespace Resolve.Visits

variable {earlier : List Site} {regions : List Region} {pending : Pending}

/-- A variable that is read is a site, with a violation if it is that of the initializer. -/
theorem readVariable (v : Variable) :
    Visits (Resolve.readVariable v) earlier ⟨regions, pending⟩
      [⟨.reads v.id, v.name, regions, pending⟩] ⟨regions, pending⟩ := by
  refine oneOf (by simp) fun state agrees => ?_
  have unready := agrees.unready_iff v.name.text
  rw [Resolve.run_readVariable]
  refine ⟨?_, fun _ => Site.file_eq ⟨.reads v.id, v.name, regions, pending⟩ agrees rfl rfl
    state.resolution⟩
  simp only [Site.error?, Site.violation?]
  by_cases reads : pending = some v.name.text ∧ regions ≠ []
  · rw [if_pos reads, if_pos (unready.2 reads)]
    rfl
  · rw [if_neg reads, if_neg (mt unready.1 reads)]
    rfl

/-- A node without a violation is a site at which something may be filed. -/
theorem file (site : Site) {id : Id} (hid : site.id? = some id) (here : site.regions = regions)
    (fine : site.violation? earlier = none) :
    Visits (Resolve.file id site.name.text) earlier ⟨regions, pending⟩ [site]
      ⟨regions, pending⟩ := by
  have declares : site.kind ≠ .declares := by
    intro hkind
    simp [Site.id?, hkind] at hid
  refine oneOf declares fun state agrees => ?_
  rw [Resolve.run_file]
  refine ⟨?_, fun _ => site.file_eq agrees hid here state.resolution⟩
  simp [Site.error?, fine]

/-- A site at which there is an error. -/
theorem report {site : Site} {cause : ResolutionCause} (kind : site.kind ≠ .declares)
    (wrong : site.violation? earlier = some cause) :
    Visits (Resolve.report site.name cause) earlier ⟨regions, pending⟩ [site]
      ⟨regions, pending⟩ := by
  refine oneOf kind fun state agrees => ?_
  rw [Site.error?, wrong]
  refine ⟨rfl, ?_⟩
  rintro ⟨⟩

/-- The keyword `this`, with a violation outside of classes. -/
theorem this (id : Id) (line : Nat) :
    Visits (Resolve.expr (Region.context regions) (.this id line)) earlier ⟨regions, pending⟩
      [⟨.this id, ⟨"this", line⟩, regions, pending⟩] ⟨regions, pending⟩ := by
  rcases Region.class?_cases regions with ⟨hclass, context⟩ | ⟨hclass, context⟩ | ⟨hclass, context⟩
  · simp only [Resolve.expr, context]
    exact report (by simp) (by simp [Site.violation?, hclass])
  · simp only [Resolve.expr, context]
    exact file ⟨.this id, ⟨"this", line⟩, regions, pending⟩ rfl rfl
      (by simp [Site.violation?, hclass])
  · simp only [Resolve.expr, context]
    exact file ⟨.this id, ⟨"this", line⟩, regions, pending⟩ rfl rfl
      (by simp [Site.violation?, hclass])

/-- The keyword `super`, with a violation where there is no superclass. -/
theorem super (id : Id) (line : Nat) (method : Name) :
    Visits (Resolve.expr (Region.context regions) (.super id line method)) earlier
      ⟨regions, pending⟩ [⟨.super id, ⟨"super", line⟩, regions, pending⟩] ⟨regions, pending⟩ := by
  rcases Region.class?_cases regions with ⟨hclass, context⟩ | ⟨hclass, context⟩ | ⟨hclass, context⟩
  · simp only [Resolve.expr, context]
    exact report (by simp) (by simp [Site.violation?, hclass])
  · simp only [Resolve.expr, context]
    exact report (by simp) (by simp [Site.violation?, hclass])
  · simp only [Resolve.expr, context]
    exact file ⟨.super id, ⟨"super", line⟩, regions, pending⟩ rfl rfl
      (by simp [Site.violation?, hclass])

/-- A declaration is a site, and its name is pending behind it. -/
theorem declare (name : Name) :
    Visits (Resolve.declare name) earlier ⟨regions, none⟩ [Site.declaring regions name]
      ⟨regions, some name.text⟩ := by
  refine one fun state agrees => ?_
  rw [Resolve.run_declare]
  refine ⟨agrees.declare name, ?_, fun _ => rfl⟩
  have violation : (Site.declaring regions name).violation? earlier =
      if regions.head?.any fun region => decide (region.Declares earlier name.text) then
        some .redeclared
      else none := rfl
  rw [Site.error?, violation, ← agrees.taken_iff]
  dsimp only
  split <;> rfl

/-- What is pending is ready from here on. -/
theorem define (name : Name) :
    Visits (Resolve.define name) earlier ⟨regions, some name.text⟩ [] ⟨regions, none⟩ := by
  refine quiet fun state agrees => ?_
  exact ⟨_, Resolve.run_bind name.text true state, agrees.define⟩

/-- Declaring a name and making it ready at once. -/
theorem declare_define {name : Name} {x : Resolve Unit} {sites : List Site} {after : Frontier}
    (h : Visits x (earlier ++ [Site.declaring regions name]) ⟨regions, none⟩ sites after) :
    Visits (do Resolve.declare name; Resolve.define name; x) earlier ⟨regions, none⟩
      (Site.declaring regions name :: sites) after :=
  (declare name).andThen (andThen_nil (define name) h)

/-- The end of a region. -/
theorem popScope {region : Region} :
    Visits Resolve.popScope earlier ⟨region :: regions, none⟩ [] ⟨regions, none⟩ :=
  quiet fun _ agrees => ⟨_, rfl, agrees.pop⟩

/-- A scope for a region that binds no name by itself, and in which nothing is declared yet. -/
theorem pushScope {region : Region} (new : region ∉ regions) (plain : region.kind.bound? = none)
    (untouched : ∀ site ∈ earlier, site.regions.head? ≠ some region) :
    Visits Resolve.pushScope earlier ⟨regions, none⟩ [] ⟨region :: regions, none⟩ := by
  refine quiet fun state agrees => ⟨_, rfl, agrees.push new fun name => ?_⟩
  rw [if_neg]
  · rfl
  · rintro (bound | ⟨site, mem, -, -, head⟩)
    · cases plain.symm.trans bound
    · exact untouched site mem head

/-- A scope for a region that binds one name by itself. -/
theorem pushScope_bind {region : Region} {name : String} (new : region ∉ regions)
    (bound : region.kind.bound? = some name)
    (untouched : ∀ site ∈ earlier, site.regions.head? ≠ some region) :
    Visits (do Resolve.pushScope; Resolve.bind name true) earlier ⟨regions, none⟩ []
      ⟨region :: regions, none⟩ := by
  refine quiet fun state agrees =>
    ⟨_, Resolve.run_bind name true _, agrees.push new fun other => ?_⟩
  rw [Bindings.get?_insert]
  by_cases hname : name = other
  · rw [if_pos hname, if_pos]
    exact Or.inl (hname ▸ bound)
  · rw [if_neg hname, if_neg]
    · rfl
    · rintro (hbound | ⟨site, mem, -, -, head⟩)
      · exact hname (Option.some.inj (bound.symm.trans hbound))
      · exact untouched site mem head

/-- The superclass of a class, for which there is a check of its own. -/
theorem inherits (parent : Variable) (name : Name) {x : Resolve Unit} {sites : List Site}
    {after : Frontier}
    (h : Visits x (earlier ++ [⟨.inherits parent.id name.text, parent.name, regions, none⟩])
      ⟨regions, none⟩ sites after) :
    Visits (if parent.name.text = name.text then
        (do Resolve.report parent.name .selfInheritance; Resolve.readVariable parent; x)
      else (do Resolve.readVariable parent; x)) earlier ⟨regions, none⟩
      (⟨.inherits parent.id name.text, parent.name, regions, none⟩ :: sites) after := by
  have ready : ∀ scopes, Agrees earlier ⟨regions, none⟩ scopes →
      ¬ (scopes.head?.any fun scope =>
        decide (scope.get? parent.name.text = some false)) = true := by
    intro scopes agrees
    rw [agrees.unready_iff]
    rintro ⟨pending, -⟩
    cases pending
  by_cases own : parent.name.text = name.text
  · have wrong : Visits (do Resolve.report parent.name .selfInheritance
                            Resolve.readVariable parent) earlier ⟨regions, none⟩
        [⟨.inherits parent.id name.text, parent.name, regions, none⟩] ⟨regions, none⟩ := by
      refine oneOf (by simp) fun state agrees => ?_
      have hrun := Resolve.run_readVariable parent
        { state with errors := state.errors ++ [⟨parent.name, .selfInheritance⟩] }
      rw [if_neg (ready _ agrees), List.append_nil] at hrun
      simp only [Site.error?, Site.violation?, own, if_true]
      refine ⟨hrun.trans ?_, ?_⟩
      · change _ = ResolveState.mk _ ((Resolve.readVariable parent).run _).2.resolution _
        rw [hrun]
        rfl
      · rintro ⟨⟩
    have both := wrong.andThen h
    rw [bind_assoc] at both
    rw [if_pos own]
    exact both
  · have fine : Visits (Resolve.readVariable parent) earlier ⟨regions, none⟩
        [⟨.inherits parent.id name.text, parent.name, regions, none⟩] ⟨regions, none⟩ := by
      refine oneOf (by simp) fun state agrees => ?_
      simp only [Site.error?, Site.violation?, own, if_false]
      rw [Resolve.run_readVariable, if_neg (ready _ agrees)]
      exact ⟨rfl, fun _ => Site.file_eq
        ⟨.inherits parent.id name.text, parent.name, regions, none⟩ agrees rfl rfl _⟩
    rw [if_neg own]
    exact fine.andThen h

/-- A site that needs no step. -/
theorem skip {site : Site} (kind : site.kind ≠ .declares) (hid : site.id? = none)
    (fine : site.violation? earlier = none) :
    Visits (pure ()) earlier ⟨regions, pending⟩ [site] ⟨regions, pending⟩ := by
  refine oneOf kind fun state _ => ⟨?_, fun _ => ?_⟩
  · change state = { state with errors := state.errors ++ _ }
    simp [Site.error?, fine]
  · change state.resolution = _
    simp [Site.file, hid]

theorem ret (line : Nat) (value : Option Expr) {sites : List Site}
    (h : Visits (Resolve.optionalExpr (Region.context regions) value)
      (earlier ++ [⟨.returns value.isSome, ⟨"return", line⟩, regions, none⟩]) ⟨regions, none⟩ sites
      ⟨regions, none⟩) :
    Visits (Resolve.stmt (Region.context regions) (.ret line value)) earlier ⟨regions, none⟩
      (⟨.returns value.isSome, ⟨"return", line⟩, regions, none⟩ :: sites) ⟨regions, none⟩ := by
  have reported : ∀ cause,
      Site.violation? ⟨.returns value.isSome, ⟨"return", line⟩, regions, none⟩ earlier =
        some cause →
      Visits (do
          Resolve.report ⟨"return", line⟩ cause
          Resolve.optionalExpr (Region.context regions) value) earlier ⟨regions, none⟩
        (⟨.returns value.isSome, ⟨"return", line⟩, regions, none⟩ :: sites) ⟨regions, none⟩ :=
    fun cause wrong => (report (by simp) wrong).andThen h
  have passed :
      Site.violation? ⟨.returns value.isSome, ⟨"return", line⟩, regions, none⟩ earlier = none →
      Visits (Resolve.optionalExpr (Region.context regions) value) earlier ⟨regions, none⟩
        (⟨.returns value.isSome, ⟨"return", line⟩, regions, none⟩ :: sites) ⟨regions, none⟩ :=
    fun fine => (skip (by simp) rfl fine).andThen h
  rcases Region.function?_cases regions with ⟨hfunction, context⟩ | ⟨hfunction, context⟩ |
    ⟨hfunction, context⟩ | ⟨hfunction, context⟩
  · simp only [Resolve.stmt, context, reduceCtorEq, and_false, if_true, if_false]
    exact reported .returnAtTopLevel (by simp [Site.violation?, hfunction])
  · simp only [Resolve.stmt, context, reduceCtorEq, and_false, if_false]
    exact passed (by simp [Site.violation?, hfunction])
  · simp only [Resolve.stmt, context]
    cases value with
    | none => exact passed (by simp [Site.violation?, hfunction])
    | some value => exact reported .returnFromInitializer (by simp [Site.violation?, hfunction])
  · simp only [Resolve.stmt, context, reduceCtorEq, and_false, if_false]
    exact passed (by simp [Site.violation?, hfunction])

end Resolve.Visits

end Lox
