import SolutionLists.Proofs.Lists.Written

namespace SolutionLists

/-! What is set around a source reaches it: through the one bundle that its target
links, or through the properties of the source. -/

open Target

namespace Lists

/-- The lines that make the bundle of a context: the library, for each language that something
is set for a call that works out its flags, and the statement that gives the library these
flags. -/
def contextBundle (carried : Abstractions) (served : List Language) : Lines :=
  let owner := "$\x7bCONTEXT\x7d"
  let rows : List (Language × String × String × String) :=
    [(.asm, "ASM", "ASM", ""), (.c, "C", "CC", carried.languageC),
      (.cxx, "CXX", "CXX", carried.languageCxx)].filter fun (language, _) =>
        language ∈ served && !carried.isEmptyFor language
  ["add_library(" ++ owner ++ "_ABSTRACTIONS INTERFACE)"] ++
    rows.map (fun (_, _, start, standard) =>
      "cbuild_set_options_flags(" ++ start ++ " \"" ++ carried.optimize ++ "\" \"" ++
        carried.debug ++ "\" \"" ++ carried.warnings ++ "\" \"" ++ standard ++ "\" " ++
        (start ++ "_OPTIONS_FLAGS_" ++ owner) ++ ")") ++
    ["target_compile_options(" ++ owner ++ "_ABSTRACTIONS INTERFACE"] ++
    rows.flatMap (fun (_, language, start, _) =>
      conditionLines language ["SHELL:$\x7b" ++ (start ++ "_OPTIONS_FLAGS_" ++ owner) ++ "\x7d"]) ++
    [")"]

/-- A language with what it is called in conditions and in the names of variables, and with its
standard. -/
def bundleRow (carried : Abstractions) (language : Language) :
    Language × String × String × String :=
  (language, language.spelling, language.variableStart, carried.standard language)

theorem setOptionsFlags_eq (carried : Abstractions) (language : Language) (flagVariable : String) :
    setOptionsFlags carried language flagVariable =
      "cbuild_set_options_flags(" ++ language.variableStart ++ " \"" ++ carried.optimize ++
        "\" \"" ++ carried.debug ++ "\" \"" ++ carried.warnings ++ "\" \"" ++
        carried.standard language ++ "\" " ++ flagVariable ++ ")" := by
  have arguments : ∀ first second third fourth : String,
      " ".intercalate [first, second, third, fourth] =
        first ++ " " ++ second ++ " " ++ third ++ " " ++ fourth := fun _ _ _ _ => rfl
  unfold setOptionsFlags Abstractions.optionArguments
  simp only [List.map_cons, List.map_nil, arguments, quoted]
  simp only [← String.toList_inj, String.toList_append, List.append_assoc]
  simp

theorem abstractionsBundle_context (carried : Abstractions) (served : List Language) :
    abstractionsBundle Target.context carried ([.asm, .c, .cxx].filter (· ∈ served)) =
      contextBundle carried served := by
  have rows : [(Language.asm, "ASM", "ASM", ""), (.c, "C", "CC", carried.languageC),
      (.cxx, "CXX", "CXX", carried.languageCxx)] =
        [Language.asm, .c, .cxx].map (bundleRow carried) := by
    simp [bundleRow, Language.spelling, Language.variableStart, Abstractions.standard]
  have own : Target.context = "$\x7bCONTEXT\x7d" := by decide
  unfold contextBundle abstractionsBundle Target.bundleOf Path.variableReference
  rw [rows, own, List.filter_filter, List.filter_map]
  simp [bundleRow, setOptionsFlags_eq, statement, Lines.indent, List.map_flatMap,
    ← indent_forLanguage, List.flatMap_map, Function.comp_def, Bool.and_comm, ← String.append_assoc]
  rfl

end Lists

namespace ContextPlan

/-- Whether the lists of a context hold its bundle. -/
def WritesBundle (plan : ContextPlan) (carried : Abstractions) (served : List Language) : Prop :=
  plan.Writes "CMakeLists.txt" (Lists.contextBundle carried served)

/-- The bundles of groups and components that have a given owner. -/
def bundlesOf (plan : ContextPlan) (owner : String) : List Bundle :=
  (plan.tree.directives.filterMap bundle?).filter (fun bundle => bundle.owner = owner)

/-- Whether a bundle is there before a statement of a list has a target link it: the
bundle of the context is made before its lists are read, any other one earlier in the
list. -/
inductive Provides (plan : ContextPlan) (statements : List Directive) (target : String)
    (bundle : Bundle) : Prop where
  | context (owner : bundle.owner = Target.context)
      (single : plan.bundlesOf Target.context = [])
      (written : plan.WritesBundle bundle.carried bundle.served)
  | earlier (single : plan.bundlesOf bundle.owner = [bundle])
      (linked : ∃ scope libraries, bundleOf bundle.owner ∈ libraries ∧
        [bundle.directive, .linkLibraries target scope libraries].Sublist statements)

end ContextPlan

namespace Target

variable {setting : Setting} {context : Context}

theorem written_bundle (root : String) (toolchain : SelectedToolchain) :
    let plan := ContextPlan.make context root toolchain
    context.abstractions.isEmptyForAll plan.languages = false →
      plan.WritesBundle context.abstractions plan.languages := by
  intro plan set
  have sorted : context.abstractions.isEmptyForAll plan.wording.languages = false :=
    (List.mergeSort_perm _ _).all_eq.trans set
  have lines : Lists.abstractionsLines context plan.wording.languages =
      ["", "# Compile Options Abstractions"] ++
        Lists.contextBundle context.abstractions plan.languages := by
    rw [← Lists.abstractionsBundle_context, ← ContextPlan.languages_wording_eq]
    exact if_neg (by rw [sorted]; exact Bool.false_ne_true)
  refine ContextPlan.writes_target ?_
  change _ <:+: _ ++ Lists.abstractionsLines context plan.wording.languages
  rw [lines]
  exact (List.suffix_append_of_suffix (List.suffix_append _ _)).isInfix

/-- A source for which something is set links a bundle that carries it, serves its
language and is there before. -/
theorem bundle_provided {plan : ContextPlan} (built : plan.tree = Tree.build setting plan.context)
    (written : plan.context.abstractions.isEmptyForAll plan.languages = false →
      plan.WritesBundle plan.context.abstractions plan.languages)
    (distinct : plan.tree.targets.Nodup) {statements : List Directive} {sites : List Site}
    (listing : Listing setting plan.context statements sites) {site : Site}
    (member : site ∈ sites) (shared : (site.plan setting plan.context).fileAbstractions = false)
    {file : File} (source : file ∈ site.sources) (compiled : file.role = .source)
    (known : file.language ≠ .all)
    (set : (site.plan setting plan.context).abstractions.isEmptyFor file.language = false) :
    ∃ bundle : Bundle,
      (site.plan setting plan.context).bundle? = some (bundleOf bundle.owner) ∧
      bundle.carried = (site.plan setting plan.context).abstractions ∧
      (∀ single ∈ file.language.singles, single ∈ bundle.served) ∧
      plan.Provides statements (site.compiling file) bundle := by
  have below := subtree_own setting plan.context source known
  have needed := Abstractions.isEmptyForAll_of_singles set below
  rcases owner_of_needed shared needed with ⟨owner, owned⟩
  have served := bundle_of_owner shared owned
  rcases link_site source compiled set served with ⟨scope, libraries, listed, links, follows⟩
  rcases owner_within (site.branch :: site.around) owned with
    ⟨rfl, carried, _⟩ | ⟨outer, enclosing, rfl, owns, carried⟩
  -- The bundle of the context serves the languages of all that is built.
  · have parts := Site.mem_sources.mp source
    have spoken : ∀ single ∈ file.language.singles, single ∈ plan.languages := by
      intro single ofFile
      rw [ContextPlan.languages, built]
      exact languages_site (listing.within site member) parts.1 compiled parts.2.2 known
        single ofFile
    rw [carried] at set
    refine ⟨⟨_, plan.context.abstractions, _⟩, served, carried.symm, spoken,
      .context rfl ?_ (written (Abstractions.isEmptyForAll_of_singles set spoken))⟩
    rw [ContextPlan.bundlesOf, built]
    exact bundles_of_context (built ▸ distinct)
  · have single : ∀ {owner : Site}, owner ∈ sites →
        (owner.plan setting plan.context).ownsBundle = true →
        plan.bundlesOf owner.target = [owner.bundle setting plan.context] := by
      intro owner ownerMember makes
      have made := (listing.sublist ownerMember).subset (mem_directives_bundle makes)
      rw [ContextPlan.bundlesOf, built]
      exact bundles_of_owner (built ▸ distinct) (listing.mem_directives made)
    rcases List.suffix_cons_iff.mp enclosing with same | around
    · rcases outer with ⟨branch, outside⟩
      rcases List.cons.inj same with ⟨rfl, rfl⟩
      refine ⟨site.bundle setting plan.context, served, rfl, below, ?_⟩
      exact .earlier (single member owns)
        ⟨scope, libraries, listed, (follows owns).trans (listing.sublist member)⟩
    -- The bundle of a group around: it is made where that group is built, which is earlier.
    · rcases listing.around site member outer around with ⟨inside, order⟩
      have outerMember : outer ∈ sites := order.subset List.mem_cons_self
      refine ⟨outer.bundle setting plan.context, served, carried,
        subtree_around setting plan.context inside source known, ?_⟩
      refine .earlier (single outerMember owns) ⟨scope, libraries, listed, ?_⟩
      rw [listing.said]
      exact pair_sublist_flatMap order (mem_directives_bundle owns) links

end Target

/-- Where no source of a node has abstractions of its own, each source for which something
is set links one bundle, which carries what is set nearest to the node. Where one has,
nothing of the node links a bundle, and the properties of each source say what is set. -/
theorem abstractions_reach_sources (context : Context) (root : String)
    (toolchain : SelectedToolchain)
    (distinct : (ContextPlan.make context root toolchain).tree.targets.Nodup) :
    let plan := ContextPlan.make context root toolchain
    let linkedBy := Directive.allLinkedBy plan.tree.directives
    ∀ list ∈ [(plan.tree.groups, context.groupSites),
      (plan.tree.components, context.componentSites)],
    ∀ site ∈ list.2,
      let files := Classification.ofFiles root site.options.files
      let resolved := site.resolved context
      (hasFileAbstractions site.options.files = false →
        ∀ file ∈ site.sources, file.role = .source → file.language ≠ .all →
          resolved.isEmptyFor file.language = false →
          (∃ sources, .addLibrary (site.compiling file) (.object sources) ∈ list.1 ∧
            Path.anchor root file.path ∈ sources) ∧
          ∃ bundle : Bundle,
            bundle.carried = resolved ∧
            (∀ single ∈ file.language.singles, single ∈ bundle.served) ∧
            plan.Provides list.1 (site.compiling file) bundle ∧
            linkedBy (site.compiling file) = bundleOf bundle.owner ::
              if file.hasCustomOptions then [] else files.library ++ files.object) ∧
      (hasFileAbstractions site.options.files = true →
        linkedBy site.target = files.library ++ files.object ∧
        ∀ file ∈ site.sources,
          (file.hasCustomOptions = true → linkedBy (site.compiling file) = []) ∧
          ((resolved.inherit file.abstractions).isEmptyFor file.language = false →
            ∃ properties, .sourceFileProperties properties ∈ list.1 ∧
              properties.file = Path.anchor root file.path ∧
              properties.language = file.language ∧
              properties.abstractions = some (resolved.inherit file.abstractions))) := by
  intro plan linkedBy list isList site member files resolved
  let setting : Setting := { root, toolchain := toolchain.name }
  have listing : Listing setting context list.1 list.2 := listing_of_mem isList
  have carried : (site.plan setting context).abstractions = resolved := abstractions_plan site
  have inContext := listing.within site member
  constructor
  · intro shared file source compiled known set
    rw [← carried] at set ⊢
    rcases compiled_site setting context source compiled with ⟨sources, added, listed⟩
    refine ⟨⟨sources, (listing.sublist member).subset added, listed⟩, ?_⟩
    rcases bundle_provided rfl (written_bundle root toolchain) distinct listing member shared
      source compiled known set with ⟨bundle, served, same, spoken, provided⟩
    have links := linked_source distinct inContext source compiled set served
    exact ⟨bundle, same, spoken, provided, links⟩
  · intro own
    have without := libraries_without_bundle (site.plan setting context) own
    refine ⟨(allLinkedBy_target distinct inContext).trans without.1, ?_⟩
    intro file source
    constructor
    · intro custom
      exact (allLinkedBy_unit distinct inContext source custom).trans (without.2 file)
    · intro set
      rw [← carried] at set ⊢
      rcases properties_file setting own set with ⟨properties, said, about⟩
      have inList := (listing.sublist member).subset (Site.mem_of_buildFile source said)
      exact ⟨properties, inList, about⟩

/-- A group that sets more than the context does, with a group below it, and a group with a
source that has settings of its own. -/
private def tunedGroups : Context where
  abstractions := { debug := "on" }
  groups :=
    [{ name := "Outer"
       options :=
         { abstractions := { optimize := "speed" }
           files :=
             [{ path := "./outer.c", category := "sourceC" },
               { path := "./unit.cpp", category := "sourceCpp", define := [{ name := "UNIT" }] }] }
       groups :=
         [{ name := "Inner"
            options := { files := [{ path := "./inner.c", category := "sourceC" }] } }] },
      { name := "Tuned"
        options :=
          { files :=
              [{ path := "./tuned.c", category := "sourceC"
                 abstractions := { optimize := "none" } },
                { path := "./plain.c", category := "sourceC" }] } }]

private def tunedToolchain : SelectedToolchain where
  name := "AC6"
  version := { major := 6, minor := 18, patch := 0 }
  root := "/opt/ac6/bin"
  config := "AC6.6.18.0.cmake"

theorem abstractions_reach_sources_tuned :
    let plan := ContextPlan.make tunedGroups "project" tunedToolchain
    let linkedBy := Directive.allLinkedBy plan.tree.directives
    plan.tree.targets.Nodup ∧
      (∀ target ∈ ["Group_Outer_Inner", "Group_Outer___unit_cpp"],
        ∃ bundle : Bundle, bundle.carried = { optimize := "speed", debug := "on" } ∧
          plan.Provides plan.tree.groups target bundle ∧
          linkedBy target = [bundleOf bundle.owner]) ∧
      linkedBy "Group_Tuned" = [] ∧
      ∃ properties, .sourceFileProperties properties ∈ plan.tree.groups ∧
        properties.abstractions = some { optimize := "none", debug := "on" } := by
  intro plan linkedBy
  have distinct : plan.tree.targets.Nodup := by decide +kernel
  have reach := abstractions_reach_sources tunedGroups "project" tunedToolchain distinct _
    List.mem_cons_self
  have shared : ∀ target ∈ ["Group_Outer_Inner", "Group_Outer___unit_cpp"],
      ∃ site ∈ tunedGroups.groupSites, hasFileAbstractions site.options.files = false ∧
        site.resolved tunedGroups = { optimize := "speed", debug := "on" } ∧
        (∃ file ∈ site.sources, site.compiling file = target ∧ file.role = .source ∧
          file.language ≠ .all ∧ (site.resolved tunedGroups).isEmptyFor file.language = false) ∧
        (Classification.ofFiles "project" site.options.files).library = [] ∧
        (Classification.ofFiles "project" site.options.files).object = [] := by
    decide +kernel
  have own : ∃ site ∈ tunedGroups.groupSites, hasFileAbstractions site.options.files = true ∧
      site.target = "Group_Tuned" ∧
      (∃ file ∈ site.sources, (site.resolved tunedGroups).inherit file.abstractions =
        { optimize := "none", debug := "on" } ∧
        ((site.resolved tunedGroups).inherit file.abstractions).isEmptyFor file.language = false) ∧
      (Classification.ofFiles "project" site.options.files).library = [] ∧
      (Classification.ofFiles "project" site.options.files).object = [] := by
    decide +kernel
  refine ⟨distinct, fun target listed => ?_, ?_⟩
  · rcases shared target listed with
      ⟨site, member, none, resolved, ⟨file, source, compiling, compiled, known, set⟩,
        library, object⟩
    rcases ((reach site member).1 none file source compiled known set).2 with
      ⟨bundle, carried, _, provided, links⟩
    rw [compiling] at provided links
    rw [library, object, List.append_nil, ite_self] at links
    exact ⟨bundle, carried.trans resolved, provided, links⟩
  · rcases own with ⟨site, member, some, target, ⟨file, source, resolved, set⟩, library, object⟩
    rcases (reach site member).2 some with ⟨links, properties⟩
    rcases (properties file source).2 set with ⟨said, listed, _, _, carried⟩
    rw [target, library, object] at links
    exact ⟨links, said, listed, carried.trans (congrArg Option.some resolved)⟩

end SolutionLists
