import GatewayConsole.JoinedWords
import GatewayConsole.Js

/-!
# The layer check

`lint/eslint-plugin-livepeer-gateway-console/rules/layer-check.js`: the lint rule that keeps
the order of the layers below `src/`, and the domains of `service/` apart.

The rule finds the layer of a file, the layer of what it imports and the two domains in four
ways: a pattern on the file name, a walk of the resolved path, a pattern on the file name
again, and one on the specifier as it is written. `create_iff` and `create_iff_of_src` say what
they come to, and `exact_iff` when that is the rule of the layers.
-/

namespace GatewayConsole

namespace LayerCheck

/-! ## The rule -/

def layerOrder : List String := ["types", "config", "repo", "service", "runtime", "ui"]

/-- `s.match(/lead([^/]+)\//)?.[1]`. -/
def matchSegment (lead s : String) : Option String :=
  (firstMatch '/' lead.toList s.toList).map String.ofList

/-- The layer that a directory of `src/` is, in `layerOf` and in `importTargetLayer`. -/
def layerNamed (top : String) : Option String :=
  if top = "providers" ∨ top = "utils" then some top
  else if layerOrder.contains top then some top
  else none

/-- Classify a file path relative to src/ into a layer name. -/
def layerOf (filename : String) : Option String := (matchSegment "/src/" filename).bind layerNamed

/-- `LAYER_ORDER.indexOf(layer)`. -/
def layerRank (layer : String) : Int :=
  match layerOrder.idxOf? layer with
  | some i => i
  | none => -1

/-- `s.split("/")`. -/
def splitSlash (s : String) : List String := (s.toList.splitOn '/').map String.ofList

/-- `file.replace(/\/[^/]+$/, "")`. -/
def dirname (file : String) : String :=
  match file.toList.reverse.takeWhile (· ≠ '/'), file.toList.reverse.dropWhile (· ≠ '/') with
  | _ :: _, _ :: dir => String.ofList dir.reverse
  | _, _ => file

/-- One part of the path, behind those resolved. -/
def step (resolved : List String) (p : String) : List String :=
  if p = "" ∨ p = "." then resolved
  else if p = ".." then resolved.dropLast
  else resolved ++ [p]

/-- Resolve an import spec relative to src/ into a layer name. -/
def importTargetLayer (currentFile spec : String) : Option String :=
  if !startsWith spec "./" && !startsWith spec "../" then none
  else
    let resolved := (splitSlash (dirname currentFile) ++ splitSlash spec).foldl step []
    match resolved.idxOf? "src" with
    | none => none
    | some srcIdx =>
        match resolved[srcIdx + 1]? with
        | none | some "" => none
        | some top => layerNamed top

/-- The two reports of the rule, with their data. -/
inductive Report where
  | upstream (fromLayer toLayer : String)
  | crossDomain (fromDomain toDomain : String)
deriving Repr, DecidableEq

/-- What `ImportDeclaration` reports on the specifier of an import. -/
def importDeclaration (filename spec : String) : Option Report := do
  let fromLayer ← layerOf filename
  let toLayer ← importTargetLayer filename spec
  if toLayer = "providers" ∨ toLayer = "utils" then none
  else if fromLayer = "providers" ∨ fromLayer = "utils" then none
  else if layerRank toLayer > layerRank fromLayer then some (.upstream fromLayer toLayer)
  else if fromLayer = "service" ∧ toLayer = "service" then
    let fromDomain := (matchSegment "/src/service/" filename).getD ""
    let toDomain ← matchSegment "/service/" spec
    if fromDomain ≠ "" ∧ toDomain ≠ "" ∧ fromDomain ≠ toDomain then
      some (.crossDomain fromDomain toDomain)
    else none
  else none

/-- `create(context)`: the visitor of a file that is not a test. -/
def create (filename spec : String) : Option Report :=
  if endsWith filename ".test.ts" then none else importDeclaration filename spec

/-! ## Files and imports -/

/-- The name of a file or a directory in a path that is resolved. -/
def IsSegment (s : String) : Prop := s ≠ "" ∧ s ≠ "." ∧ s ≠ ".." ∧ '/' ∉ s.toList

instance (s : String) : Decidable (IsSegment s) :=
  inferInstanceAs (Decidable (s ≠ "" ∧ s ≠ "." ∧ s ≠ ".." ∧ '/' ∉ s.toList))

/-- An absolute path. -/
def path (segments : List String) : String :=
  String.ofList (joined '/' (segments.map String.toList))

/-- A file `root/src/layer/dirs/name`. -/
structure SourceFile where
  root : List String
  layer : String
  dirs : List String
  name : String
  segment : ∀ s ∈ root ++ dirs ++ [name], IsSegment s
  ranked : layer ∈ layerOrder

def SourceFile.dir (f : SourceFile) : List String := f.root ++ "src" :: f.layer :: f.dirs

def SourceFile.filename (f : SourceFile) : String := path (f.dir ++ [f.name])

/-- A relative specifier that leads from the file's directory to `root/src/layer/rest`. -/
structure RelativeImport (f : SourceFile) where
  spec : String
  layer : String
  rest : List String
  relative : startsWith spec "./" = true ∨ startsWith spec "../" = true
  resolves : (splitSlash spec).foldl step f.dir = f.root ++ "src" :: layer :: rest
  ranked : layer ∈ layerOrder

/-- The directory that what is below `service/` lies in. -/
def domain : List String → Option String
  | d :: _ :: _ => some d
  | _ => none

/-- The rule of the layers is broken: the import goes up, or into another domain. -/
def Forbidden (f : SourceFile) (i : RelativeImport f) : Prop :=
  layerRank f.layer < layerRank i.layer
    ∨ f.layer = "service" ∧ i.layer = "service"
      ∧ ∃ d e, domain (f.dirs ++ [f.name]) = some d ∧ domain i.rest = some e ∧ d ≠ e

/-! ## Paths -/

theorem path_toList (segments : List String) :
    (path segments).toList = joined '/' (segments.map String.toList) := String.toList_ofList

theorem ofList_comp_toList : String.ofList ∘ String.toList = id :=
  funext fun _ => String.ofList_toList

theorem words_of_segments {segments : List String} (h : ∀ s ∈ segments, IsSegment s) :
    ∀ w ∈ segments.map String.toList, w ≠ [] ∧ '/' ∉ w := by
  intro w hw
  obtain ⟨s, hs, rfl⟩ := List.mem_map.mp hw
  exact ⟨fun hnil => (h s hs).1 (String.toList_eq_nil_iff.mp hnil), (h s hs).2.2.2⟩

/-- A pattern of segments finds what one finds among the segments. -/
theorem matchSegment_path {lead : String} {run segments : List String}
    (hlead : lead.toList = joined '/' (run.map String.toList) ++ ['/'])
    (hrun : ∀ s ∈ run, IsSegment s) (hsegments : ∀ s ∈ segments, IsSegment s) :
    matchSegment lead (path segments) = wordAfter run segments := by
  have hfirst := firstMatch_joined (fun v hv => (words_of_segments hrun v hv).2)
    (words_of_segments hsegments)
  rw [matchSegment, hlead, path_toList, hfirst,
    wordAfter_map (fun _ _ h => String.toList_inj.mp h), Option.map_map]
  rw [ofList_comp_toList, Option.map_id, id]

theorem splitSlash_path {segments : List String} (h : ∀ s ∈ segments, IsSegment s) :
    splitSlash (path segments) = "" :: segments := by
  have hsplit := splitOn_joined fun w hw => (words_of_segments h w hw).2
  rw [splitSlash, path_toList, hsplit, List.map_cons, List.map_map, ofList_comp_toList,
    List.map_id]

theorem dirname_path {segments : List String} {name : String} (h : IsSegment name) :
    dirname (path (segments ++ [name])) = path segments := by
  obtain ⟨hne, -, -, hslash⟩ := h
  have hlist : (path (segments ++ [name])).toList.reverse
      = name.toList.reverse ++ '/' :: (path segments).toList.reverse := by
    simp [path_toList]
  have hall : ∀ c ∈ name.toList.reverse, decide (c ≠ '/') = true := fun c hc =>
    decide_eq_true fun heq => hslash (heq ▸ List.mem_reverse.mp hc)
  obtain ⟨c, cs, hcs⟩ := List.exists_cons_of_ne_nil (l := name.toList.reverse)
    fun hnil => hne (String.toList_eq_nil_iff.mp (List.reverse_eq_nil_iff.mp hnil))
  rw [dirname, hlist, List.takeWhile_append_of_pos hall, List.dropWhile_append_of_pos hall,
    List.takeWhile_cons_of_neg (by simp), List.dropWhile_cons_of_neg (by simp), hcs]
  simp

theorem foldl_step_segments {segments : List String} (h : ∀ s ∈ segments, IsSegment s)
    (resolved : List String) : segments.foldl step resolved = resolved ++ segments := by
  induction segments generalizing resolved with
  | nil => rw [List.foldl_nil, List.append_nil]
  | cons s segments ih =>
      obtain ⟨hempty, hdot, hdots, -⟩ := h s List.mem_cons_self
      rw [List.foldl_cons, ih fun t ht => h t (List.mem_cons_of_mem s ht), step,
        if_neg (not_or.mpr ⟨hempty, hdot⟩), if_neg hdots, List.append_assoc]
      rfl

/-! ## The first `src` -/

/-- The segment behind the first `src` of a path `root/src/layer/...`. -/
def behindSrc (layer : String) : List String → String
  | [] => layer
  | s :: rest => if s = "src" then rest.headD "src" else behindSrc layer rest

/-- The segment behind the first `src` and a `service` behind it, if they are in the root of a
path `root/src/...`. -/
def outerDomain : List String → Option String
  | [] => none
  | s :: rest =>
      if s = "src" then
        if rest.head? = some "service" then some (rest.tail.headD "src") else none
      else outerDomain rest

theorem behindSrc_of_notMem {root : List String} (layer : String) (h : "src" ∉ root) :
    behindSrc layer root = layer := by
  induction root with
  | nil => rfl
  | cons s rest ih =>
      obtain ⟨hs, hrest⟩ := not_or.mp (mt List.mem_cons.mpr h)
      rw [behindSrc, if_neg (Ne.symm hs), ih hrest]

theorem behindSrc_of_mem {root : List String} (layer layer' : String) (h : "src" ∈ root) :
    behindSrc layer root = behindSrc layer' root := by
  induction root with
  | nil => cases h
  | cons s rest ih =>
      rw [behindSrc, behindSrc]
      split
      · rfl
      · rename_i hne
        exact ih ((List.mem_cons.mp h).resolve_left fun heq => hne heq.symm)

theorem wordAfter_src (root : List String) (layer x : String) (rest : List String) :
    wordAfter ["src"] (root ++ "src" :: layer :: x :: rest) = some (behindSrc layer root) := by
  induction root with
  | nil => rfl
  | cons s more ih =>
      rw [List.cons_append, wordAfter, ih, behindSrc]
      split
      · rename_i hs
        subst hs
        cases more with
        | nil => rfl
        | cons m more => cases more <;> rfl
      · rename_i hs
        rw [wordAt, if_neg fun heq => hs heq.symm, Option.none_or]

theorem getElem?_idxOf?_src (root : List String) (layer : String) (rest : List String) :
    ∃ srcIdx, (root ++ "src" :: layer :: rest).idxOf? "src" = some srcIdx
      ∧ (root ++ "src" :: layer :: rest)[srcIdx + 1]? = some (behindSrc layer root) := by
  induction root with
  | nil => exact ⟨0, rfl, rfl⟩
  | cons s more ih =>
      obtain ⟨srcIdx, hidx, hget⟩ := ih
      by_cases hs : s = "src"
      · subst hs
        refine ⟨0, by simp [List.idxOf?_cons], ?_⟩
        cases more <;> rfl
      · refine ⟨srcIdx + 1, ?_, ?_⟩
        · rw [List.cons_append, List.idxOf?_cons, if_neg (by simpa using hs), hidx]
          rfl
        · rw [List.cons_append, List.getElem?_cons_succ, hget, behindSrc, if_neg hs]

theorem wordAfter_srcService {root : List String} (h : "src" ∉ root) (rest : List String) :
    wordAfter ["src", "service"] (root ++ "src" :: "service" :: rest) = domain rest := by
  induction root with
  | nil =>
      match rest with
      | [] => rfl
      | [x] => by_cases hx : "src" = x <;> simp [wordAfter, wordAt, domain, hx]
      | x :: y :: rest => rfl
  | cons s more ih =>
      obtain ⟨hs, hmore⟩ := not_or.mp (mt List.mem_cons.mpr h)
      rw [List.cons_append, wordAfter, wordAt, if_neg hs, Option.none_or, ih hmore]

theorem wordAfter_outerDomain {root : List String} {d : String} (h : outerDomain root = some d)
    (x y : String) (rest : List String) :
    wordAfter ["src", "service"] (root ++ "src" :: x :: y :: rest) = some d := by
  fun_induction outerDomain root with
  | case1 => cases h
  | case2 more hhead =>
      obtain rfl := Option.some.inj h
      obtain ⟨more, rfl⟩ := List.head?_eq_some_iff.mp hhead
      match more with
      | [] => rfl
      | [m] => rfl
      | m :: n :: more => rfl
  | case3 => cases h
  | case4 s more hs ih =>
      rw [List.cons_append, wordAfter, wordAt, if_neg fun heq => hs heq.symm, Option.none_or, ih h]

/-- Behind the first `src` of a root is `service` exactly if there is a domain behind that. -/
theorem behindSrc_eq_service {root : List String} (h : "src" ∈ root) (layer : String) :
    behindSrc layer root = "service" ↔ ∃ d, outerDomain root = some d := by
  induction root with
  | nil => cases h
  | cons s more ih =>
      by_cases hs : s = "src"
      · rw [behindSrc, outerDomain, if_pos hs, if_pos hs]
        match more with
        | [] => simp
        | m :: more => by_cases hm : m = "service" <;> simp [hm]
      · rw [behindSrc, outerDomain, if_neg hs, if_neg hs]
        exact ih ((List.mem_cons.mp h).resolve_left fun heq => hs heq.symm)

theorem behindSrc_ne_empty {root : List String} {layer : String} (hlayer : layer ≠ "")
    (hroot : ∀ s ∈ root, s ≠ "") : behindSrc layer root ≠ "" := by
  induction root with
  | nil => exact hlayer
  | cons s more ih =>
      rw [behindSrc]
      split
      · cases more with
        | nil => decide
        | cons m more => exact hroot m (List.mem_cons_of_mem s List.mem_cons_self)
      · exact ih fun t ht => hroot t (List.mem_cons_of_mem s ht)

/-! ## What the rule sees -/

theorem isSegment_of_ranked {layer : String} (h : layer ∈ layerOrder) : IsSegment layer := by
  have hall : ∀ l ∈ layerOrder, IsSegment l := by decide
  exact hall layer h

theorem layerNamed_of_ranked {layer : String} (h : layer ∈ layerOrder) :
    layerNamed layer = some layer := by
  rw [layerNamed]
  split
  · rfl
  · rw [if_pos (List.contains_iff_mem.mpr h)]

theorem not_leaf_of_ranked {layer : String} (h : layer ∈ layerOrder) :
    ¬(layer = "providers" ∨ layer = "utils") := by
  rintro (rfl | rfl)
  · exact absurd h (by decide)
  · exact absurd h (by decide)

variable {f : SourceFile}

theorem SourceFile.isSegment (f : SourceFile) : ∀ s ∈ f.dir ++ [f.name], IsSegment s := by
  intro s hs
  have hseg := f.segment s
  simp only [dir, List.mem_append, List.mem_cons, List.not_mem_nil, or_false] at hs hseg
  rcases hs with (hroot | rfl | rfl | hdirs) | hname
  · exact hseg (Or.inl (Or.inl hroot))
  · decide
  · exact isSegment_of_ranked f.ranked
  · exact hseg (Or.inl (Or.inr hdirs))
  · exact hseg (Or.inr hname)

theorem SourceFile.exists_below (f : SourceFile) : ∃ x rest, f.dirs ++ [f.name] = x :: rest := by
  cases f.dirs with
  | nil => exact ⟨_, _, rfl⟩
  | cons d dirs => exact ⟨_, _, rfl⟩

theorem SourceFile.segments_eq (f : SourceFile) :
    f.dir ++ [f.name] = f.root ++ "src" :: f.layer :: (f.dirs ++ [f.name]) := by
  simp [dir]

/-- A pattern of segments on the name of a file. -/
theorem matchSegment_filename {lead : String} {run : List String}
    (hlead : lead.toList = joined '/' (run.map String.toList) ++ ['/'])
    (hrun : ∀ s ∈ run, IsSegment s) (f : SourceFile) :
    matchSegment lead f.filename
      = wordAfter run (f.root ++ "src" :: f.layer :: (f.dirs ++ [f.name])) := by
  rw [← f.segments_eq]
  exact matchSegment_path hlead hrun f.isSegment

theorem layerOf_filename (f : SourceFile) :
    layerOf f.filename = layerNamed (behindSrc f.layer f.root) := by
  have hsrc : ∀ s ∈ ["src"], IsSegment s := by decide
  have hmatch : matchSegment "/src/" f.filename = _ := matchSegment_filename rfl hsrc f
  obtain ⟨x, rest, hbelow⟩ := f.exists_below
  rw [layerOf, hmatch, hbelow, wordAfter_src, Option.bind_some]

theorem matchSegment_srcService (f : SourceFile) :
    matchSegment "/src/service/" f.filename
      = wordAfter ["src", "service"] (f.root ++ "src" :: f.layer :: (f.dirs ++ [f.name])) :=
  matchSegment_filename rfl (by decide) f

/-- The walk of the path starts at the directory of the file. -/
theorem resolved_eq (i : RelativeImport f) :
    (splitSlash (dirname f.filename) ++ splitSlash i.spec).foldl step []
      = f.root ++ "src" :: i.layer :: i.rest := by
  have hdir : ∀ s ∈ f.dir, IsSegment s := fun s hs => f.isSegment s (List.mem_append_left _ hs)
  have hname : IsSegment f.name := f.isSegment f.name (List.mem_append_right _ (by simp))
  rw [SourceFile.filename, dirname_path hname, splitSlash_path hdir, List.foldl_append,
    List.foldl_cons, foldl_step_segments hdir]
  exact i.resolves

theorem importTargetLayer_eq (i : RelativeImport f) :
    importTargetLayer f.filename i.spec = layerNamed (behindSrc i.layer f.root) := by
  have hrelative : ¬(!startsWith i.spec "./" && !startsWith i.spec "../") = true := by
    rcases i.relative with h | h
    · simp [h]
    · simp [h]
  have hroot : ∀ s ∈ f.root, s ≠ "" := fun s hs =>
    (f.isSegment s (List.mem_append_left _ (List.mem_append_left _ hs))).1
  have hne := behindSrc_ne_empty (isSegment_of_ranked i.ranked).1 hroot
  obtain ⟨srcIdx, hidx, htop⟩ := getElem?_idxOf?_src f.root i.layer i.rest
  rw [importTargetLayer, if_neg hrelative, resolved_eq i]
  simp only [hidx, htop]

/-- The specifier, as written, names a domain other than this one. -/
def NamesOther (spec d : String) : Prop := ∃ e, matchSegment "/service/" spec = some e ∧ e ≠ d

theorem matchSegment_ne_empty {lead s d : String} (h : matchSegment lead s = some d) : d ≠ "" := by
  obtain ⟨w, hw, rfl⟩ := Option.map_eq_some_iff.mp h
  intro hempty
  exact firstMatch_ne_nil hw (by simpa using congrArg String.toList hempty)

/-- The last part of the visitor: the two domains of an import within `service`. -/
theorem importDeclaration_service {filename spec : String}
    (hfrom : layerOf filename = some "service")
    (hto : importTargetLayer filename spec = some "service") :
    (importDeclaration filename spec).isSome
      ↔ ∃ d, matchSegment "/src/service/" filename = some d ∧ NamesOther spec d := by
  have hrank : ¬layerRank "service" > layerRank "service" := lt_irrefl _
  have hleaf : ¬("service" = "providers" ∨ "service" = "utils") := by decide
  simp only [importDeclaration, NamesOther, hfrom, hto, Option.bind_eq_bind, Option.bind_some,
    if_neg hrank, if_neg hleaf, and_self, if_true]
  cases hspec : matchSegment "/service/" spec with
  | none => simp
  | some e =>
      have he := matchSegment_ne_empty hspec
      cases hfile : matchSegment "/src/service/" filename with
      | none => simp
      | some d =>
          have hd := matchSegment_ne_empty hfile
          by_cases hde : d = e
          · simp [hde]
          · simp [hd, he, hde, Ne.symm hde]

/-- The layers come before the domains. -/
theorem importDeclaration_ranked {filename spec fromLayer toLayer : String}
    (hfrom : layerOf filename = some fromLayer) (hrankedFrom : fromLayer ∈ layerOrder)
    (hto : importTargetLayer filename spec = some toLayer) (hrankedTo : toLayer ∈ layerOrder) :
    (importDeclaration filename spec).isSome
      ↔ layerRank fromLayer < layerRank toLayer
        ∨ fromLayer = "service" ∧ toLayer = "service"
          ∧ ∃ d, matchSegment "/src/service/" filename = some d ∧ NamesOther spec d := by
  by_cases hup : layerRank toLayer > layerRank fromLayer
  · have hreport : importDeclaration filename spec = some (.upstream fromLayer toLayer) := by
      simp only [importDeclaration, hfrom, hto, Option.bind_eq_bind, Option.bind_some,
        if_neg (not_leaf_of_ranked hrankedFrom), if_neg (not_leaf_of_ranked hrankedTo), if_pos hup]
    simp [hreport, hup]
  · by_cases hservice : fromLayer = "service" ∧ toLayer = "service"
    · obtain ⟨rfl, rfl⟩ := hservice
      rw [importDeclaration_service hfrom hto]
      simp
    · have hnone : importDeclaration filename spec = none := by
        simp only [importDeclaration, hfrom, hto, Option.bind_eq_bind, Option.bind_some,
          if_neg (not_leaf_of_ranked hrankedFrom), if_neg (not_leaf_of_ranked hrankedTo),
          if_neg hup, if_neg hservice]
      rw [hnone]
      constructor
      · intro h
        cases h
      · rintro (h | ⟨h1, h2, -⟩)
        · exact absurd h hup
        · exact absurd ⟨h1, h2⟩ hservice

/-- Within one layer other than `service` nothing is reported. -/
theorem importDeclaration_same {filename spec top : String}
    (hfrom : layerOf filename = layerNamed top)
    (hto : importTargetLayer filename spec = layerNamed top) (hne : top ≠ "service") :
    importDeclaration filename spec = none := by
  rw [layerNamed] at hfrom hto
  split at hfrom
  · rename_i hleaf
    rw [if_pos hleaf] at hto
    simp only [importDeclaration, hfrom, hto, Option.bind_eq_bind, Option.bind_some, if_pos hleaf]
  · rename_i hleaf
    rw [if_neg hleaf] at hto
    split at hfrom
    · rename_i hranked
      rw [if_pos hranked] at hto
      have hmem := List.contains_iff_mem.mp hranked
      have hiff := importDeclaration_ranked hfrom hmem hto hmem
      refine Option.not_isSome_iff_eq_none.mp fun h => ?_
      rcases hiff.mp h with hup | ⟨hservice, -⟩
      · exact absurd hup (lt_irrefl _)
      · exact hne hservice
    · rw [importDeclaration, hfrom]
      rfl

/-- In a checkout with no `src` above it the rule sees the layers as they are, and the domain
of the target as it is written. -/
theorem create_iff (i : RelativeImport f) (htest : endsWith f.filename ".test.ts" = false)
    (hroot : "src" ∉ f.root) :
    (create f.filename i.spec).isSome
      ↔ layerRank f.layer < layerRank i.layer
        ∨ f.layer = "service" ∧ i.layer = "service"
          ∧ ∃ d, domain (f.dirs ++ [f.name]) = some d ∧ NamesOther i.spec d := by
  have hfrom : layerOf f.filename = some f.layer := by
    rw [layerOf_filename, behindSrc_of_notMem _ hroot, layerNamed_of_ranked f.ranked]
  have hto : importTargetLayer f.filename i.spec = some i.layer := by
    rw [importTargetLayer_eq, behindSrc_of_notMem _ hroot, layerNamed_of_ranked i.ranked]
  rw [create, htest, if_neg Bool.false_ne_true,
    importDeclaration_ranked hfrom f.ranked hto i.ranked]
  refine or_congr_right (and_congr_right fun hservice => and_congr_right fun _ => ?_)
  rw [matchSegment_srcService, hservice, wordAfter_srcService hroot]

/-- In a checkout below a `src` of its own every layer is the directory behind that one, and
every domain the directory behind that, if it is `service`. -/
theorem create_iff_of_src (i : RelativeImport f) (htest : endsWith f.filename ".test.ts" = false)
    (hroot : "src" ∈ f.root) :
    (create f.filename i.spec).isSome
      ↔ ∃ d, outerDomain f.root = some d ∧ NamesOther i.spec d := by
  have hfrom := layerOf_filename f
  have hto := importTargetLayer_eq i
  rw [behindSrc_of_mem i.layer f.layer hroot] at hto
  have hmatch := matchSegment_srcService f
  obtain ⟨x, rest, hbelow⟩ := f.exists_below
  rw [hbelow] at hmatch
  rw [create, htest, if_neg Bool.false_ne_true]
  by_cases hservice : behindSrc f.layer f.root = "service"
  · obtain ⟨d, hd⟩ := (behindSrc_eq_service hroot f.layer).mp hservice
    rw [hservice] at hfrom hto
    rw [importDeclaration_service hfrom hto, hmatch, wordAfter_outerDomain hd, hd]
  · have hnone : outerDomain f.root = none :=
      Option.eq_none_iff_forall_ne_some.mpr fun d hd =>
        hservice ((behindSrc_eq_service hroot f.layer).mpr ⟨d, hd⟩)
    rw [importDeclaration_same hfrom hto hservice, hnone]
    simp

/-! ## Exactness -/

/-- The rule reports the import exactly if it is forbidden. -/
def Exact (f : SourceFile) (i : RelativeImport f) : Prop :=
  (create f.filename i.spec).isSome ↔ Forbidden f i

/-- **When the rule is exact.** In a checkout with no `src` above it: when an import within
`service` is written so that it names another domain exactly if it leads to one. Below a `src`
the rule judges by the outer path. Where that is in no domain it reports nothing, and is right
of the imports that are not forbidden; in a domain it is right of those that are forbidden
exactly if the specifier names another. -/
theorem exact_iff (f : SourceFile) (i : RelativeImport f)
    (htest : endsWith f.filename ".test.ts" = false) :
    Exact f i
      ↔ ("src" ∉ f.root ∧ (f.layer = "service" → i.layer = "service" →
          ∀ d, domain (f.dirs ++ [f.name]) = some d →
            (NamesOther i.spec d ↔ ∃ e, domain i.rest = some e ∧ d ≠ e)))
        ∨ ("src" ∈ f.root ∧ outerDomain f.root = none ∧ ¬Forbidden f i)
        ∨ ("src" ∈ f.root
          ∧ ∃ d, outerDomain f.root = some d ∧ (NamesOther i.spec d ↔ Forbidden f i)) := by
  by_cases hroot : "src" ∈ f.root
  · rw [Exact, create_iff_of_src i htest hroot]
    simp only [hroot, not_true_eq_false, false_and, true_and, false_or]
    cases outerDomain f.root with
    | none => simp
    | some d => simp
  · rw [Exact, create_iff i htest hroot, Forbidden]
    simp only [hroot, not_false_eq_true, true_and, false_and, or_false]
    constructor
    · intro h hfrom hto d hd
      have hlevel : ¬layerRank f.layer < layerRank i.layer := by
        rw [hfrom, hto]
        exact lt_irrefl _
      constructor
      · intro hnames
        have hforbidden := h.mp (Or.inr ⟨hfrom, hto, d, hd, hnames⟩)
        obtain ⟨-, -, d', e, hd', he, hne⟩ := hforbidden.resolve_left hlevel
        obtain rfl := Option.some.inj (hd.symm.trans hd')
        exact ⟨e, he, hne⟩
      · rintro ⟨e, he, hne⟩
        have hreport := h.mpr (Or.inr ⟨hfrom, hto, d, e, hd, he, hne⟩)
        obtain ⟨-, -, d', hd', hnames⟩ := hreport.resolve_left hlevel
        obtain rfl := Option.some.inj (hd.symm.trans hd')
        exact hnames
    · intro h
      refine or_congr_right (and_congr_right fun hfrom => and_congr_right fun hto => ?_)
      refine exists_congr fun d => ?_
      rw [exists_and_left]
      exact and_congr_right fun hd => h hfrom hto d hd

/-! ## A file of the console -/

/-- `service/routing/index.ts` of a checkout at `/work`. -/
def routingIndex : SourceFile where
  root := ["work"]
  layer := "service"
  dirs := ["routing"]
  name := "index.ts"
  segment := by decide
  ranked := by decide

/-- The import of the repository. -/
def repoImport : RelativeImport routingIndex where
  spec := "../../repo/index.js"
  layer := "repo"
  rest := ["index.js"]
  relative := by decide
  resolves := rfl
  ranked := by decide

/-- The import of the neighbour. -/
def senderImport : RelativeImport routingIndex where
  spec := "../sender/index.js"
  layer := "service"
  rest := ["sender", "index.js"]
  relative := by decide
  resolves := rfl
  ranked := by decide

theorem exact_iff_repoImport :
    endsWith routingIndex.filename ".test.ts" = false ∧ Exact routingIndex repoImport :=
  ⟨rfl, (exact_iff routingIndex repoImport rfl).mpr
    (Or.inl ⟨by decide, fun _ h => absurd h (by decide)⟩)⟩

/-- The neighbour is another domain, which the specifier does not say. -/
theorem not_exact_senderImport :
    endsWith routingIndex.filename ".test.ts" = false
      ∧ create routingIndex.filename senderImport.spec = none
      ∧ ¬Exact routingIndex senderImport := by
  have hnone : create routingIndex.filename senderImport.spec = none := rfl
  refine ⟨rfl, hnone, fun h => ?_⟩
  rw [Exact, hnone] at h
  exact Bool.false_ne_true (h.mpr (Or.inr ⟨rfl, rfl, "routing", "sender", rfl, rfl, by decide⟩))

end LayerCheck

end GatewayConsole
