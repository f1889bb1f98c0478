import SolutionLists.Proofs.Assembler
import SolutionLists.Proofs.Target.Site

namespace SolutionLists

/-! What assembly sources are given with AC6. Flags and definitions reach a source from the
context, from the groups around it and from its node; the last flag about the assembler decides
how the definitions are spelled. -/

/-- The settings of a source that a statement sets. -/
def Directive.properties? : Directive → Option FileProperties
  | sourceFileProperties properties => some properties
  | _ => none

namespace Target

/-- The flags for an assembly source below the context, from the outermost group inwards. -/
def Site.assemblyFlags (site : Site) (file : File) : List String :=
  (site.branch :: site.around).reverse.flatMap (·.node.options.misc.asm) ++ file.misc.asm

/-- The definitions that are meant for assembly, from those of a source outwards. -/
def Site.assemblyDefines (context : Context) (site : Site) (file : File) : List Define :=
  file.defineAsm ++ (site.branch :: site.around).flatMap (·.node.options.defineAsm) ++
    context.defineAsm

variable (setting : Setting) (context : Context)

/-! ## What reaches a source -/

theorem miscAsm_within (around : List Branch) :
    (inheritedWithin setting context around).miscAsm =
      Ordered.append context.misc.asm (around.reverse.flatMap (·.node.options.misc.asm)) := by
  induction around with
  | nil => rfl
  | cons outer rest induction =>
      rw [List.reverse_cons, List.flatMap_append, List.flatMap_singleton, Ordered.append_append,
        ← induction]
      rfl

theorem append_defineAsm_within (defines : List Define) (around : List Branch) :
    Ordered.append defines (inheritedWithin setting context around).defineAsm =
      Ordered.append defines
        (around.flatMap (·.node.options.defineAsm) ++ context.defineAsm) := by
  induction around generalizing defines with
  | nil => rfl
  | cons outer rest induction =>
      have own : (inheritedWithin setting context (outer :: rest)).defineAsm =
          Ordered.append outer.node.options.defineAsm
            (inheritedWithin setting context rest).defineAsm := rfl
      rw [own, Ordered.append_append_left, induction, ← Ordered.append_append,
        List.flatMap_cons, List.append_assoc]

variable {setting context} {site : Site} {file : File}

theorem append_miscAsm_plan :
    Ordered.append (site.plan setting context).miscAsm file.misc.asm =
      Ordered.append context.misc.asm (site.assemblyFlags file) := by
  rw [Site.assemblyFlags, Ordered.append_append, ← miscAsm_within setting context]
  rfl

theorem assemblyDefines_plan :
    assemblyDefines (site.plan setting context) file =
      Ordered.append file.define (site.assemblyDefines context file) := by
  rw [Site.assemblyDefines, List.append_assoc, Ordered.append_append,
    ← append_defineAsm_within setting context _ (site.branch :: site.around)]
  rfl

/-! ## What is set for a source -/

variable (setting) in
theorem properties_buildFile (plan : Plan) (file : File) :
    (buildFile setting plan file).directives.filterMap Directive.properties? =
      if (fileProperties setting plan file).isEmpty then []
      else [fileProperties setting plan file] := by
  have ofUnit : (customUnit setting plan file).directives.filterMap Directive.properties? = [] := by
    simp [customUnit, Directive.properties?, List.filterMap_cons, List.filterMap_map,
      Function.comp_def, apply_ite (List.filterMap Directive.properties?)]
  have unit : (if file.hasCustomOptions then customUnit setting plan file
      else {}).directives.filterMap Directive.properties? = [] := by
    split
    · exact ofUnit
    · rfl
  rw [buildFile, Emission.directives_append, List.filterMap_append, unit, List.nil_append,
    apply_ite (List.filterMap Directive.properties?)]
  rfl

theorem mem_directives_of_buildFile {statement : Directive} (member : site ∈ context.sites)
    (source : file ∈ site.sources)
    (said : statement ∈ (buildFile setting (site.plan setting context) file).directives) :
    statement ∈ (Tree.build setting context).directives := by
  rw [directives_build]
  exact List.mem_flatMap.mpr ⟨site, member, Site.mem_of_buildFile source said⟩

theorem fileProperties_assembly {dialect : AssemblerDialect} (plan : Plan)
    (assembly : file.language = .asm) (defined : assemblyDefines plan file ≠ [])
    (read : AssemblerDialect.ofFile? setting.toolchain file.path
      (Ordered.append plan.miscAsm file.misc.asm) = some dialect) :
    let properties := fileProperties setting plan file
    properties.file = Path.anchor setting.root file.path ∧
      properties.compileOptions =
        file.misc.asm ++ dialect.symbolFlags (assemblyDefines plan file) ∧
      properties.compileDefinitions = [] := by
  unfold fileProperties
  simp only [assembly, if_true, withAssemblyDefines, defined, if_false, read,
    Misc.compileFlags]
  split <;> simp only [and_self]

theorem isEmpty_of_compileOptions {properties : FileProperties}
    (options : properties.compileOptions ≠ []) : properties.isEmpty = false := by
  simp [FileProperties.isEmpty, options]

end Target

open Target AssemblerDialect

/-- With AC6 the definitions of an assembly source are spelled as the flag asks that came up
last for the first time. That is the last flag about the assembler wherever no other one
follows on it once it has come up. -/
theorem newest_flag_decides_dialect (setting : Setting) (context : Context)
    (compiler : setting.toolchain = "AC6") :
    ∀ site ∈ context.sites, ∀ file ∈ site.sources, file.language = .asm →
      Text.endsWith file.path ".S" = false →
      file.define ++ site.assemblyDefines context file ≠ [] →
      ∃ (dialect : AssemblerDialect) (properties : FileProperties),
        (buildFile setting (site.plan setting context) file).directives.filterMap
            Directive.properties? = [properties] ∧
          .sourceFileProperties properties ∈ (Tree.build setting context).directives ∧
          properties.file = Path.anchor setting.root file.path ∧
          properties.compileOptions = file.misc.asm ++ dialect.symbolFlags
            (Ordered.append file.define (site.assemblyDefines context file)) ∧
          properties.compileDefinitions = [] ∧
          (dialect = .gnu ↔ ∃ flag, AsksForGnu flag ∧
            (Ordered.Newest "-masm" context.misc.asm (site.assemblyFlags file) flag ∨
              (Ordered.Repeats "-masm" context.misc.asm (site.assemblyFlags file) ∧
                Ordered.lastContaining context.misc.asm "-masm" = some flag))) ∧
          (Ordered.Unbroken "-masm" (context.misc.asm ++ site.assemblyFlags file) →
            (dialect = .gnu ↔ ∃ flag, AsksForGnu flag ∧
              Ordered.lastContaining (context.misc.asm ++ site.assemblyFlags file) "-masm" =
                some flag)) := by
  intro site member file source assembly unread defined
  let plan := site.plan setting context
  let flags := Ordered.append context.misc.asm (site.assemblyFlags file)
  rcases ofFile?_arm_compiler unread flags with ⟨dialect, read, decides⟩
  rw [← compiler] at read
  have told : assemblyDefines plan file ≠ [] := by
    rcases List.exists_mem_of_ne_nil _ defined with ⟨define, member⟩
    rw [assemblyDefines_plan]
    exact List.ne_nil_of_mem (Ordered.mem_append.mpr (List.mem_append.mp member))
  rcases fileProperties_assembly plan assembly told
    (by rw [append_miscAsm_plan]; exact read) with ⟨path, options, definitions⟩
  have written : (fileProperties setting plan file).isEmpty = false := by
    refine isEmpty_of_compileOptions ?_
    rw [options]
    exact List.append_ne_nil_of_right_ne_nil _ fun none => told (List.map_eq_nil_iff.mp none)
  have only := properties_buildFile setting plan file
  rw [written, if_neg Bool.false_ne_true] at only
  rw [assemblyDefines_plan] at options
  refine ⟨dialect, fileProperties setting plan file, only, ?_, path, options, definitions,
    ?_, ?_⟩
  · refine mem_directives_of_buildFile member source ?_
    rcases List.mem_filterMap.mp (only.symm ▸ List.mem_cons_self) with ⟨statement, said, same⟩
    cases statement <;> cases same
    exact said
  · rw [decides]
    refine exists_congr fun flag => ?_
    rw [and_comm, Ordered.lastContaining_append_eq_some]
  · intro unbroken
    rw [decides]
    refine exists_congr fun flag => ?_
    rw [and_comm, Ordered.lastContaining_append_of_unbroken unbroken]

/-- A source in a group that asks for another assembler than its context. -/
private def overriddenFlags (ofSource : List String) : Context where
  misc := { asm := ["-masm=gnu"] }
  groups :=
    [{ name := "App"
       options :=
         { misc := { asm := ["-masm=armasm"] }
           files :=
             [{ path := "./startup.s", category := "sourceAsm", define := [{ name := "FLAG" }],
                misc := { asm := ofSource } }] } }]

private def armSetting : Setting where
  root := "project"
  toolchain := "AC6"

theorem newest_flag_decides_dialect_of_source :
    ∃ properties,
      .sourceFileProperties properties ∈
        (Tree.build armSetting (overriddenFlags ["-masm=auto"])).directives ∧
      properties.compileOptions = ["-masm=auto", "-Wa,--defsym,FLAG=1"] := by
  let context := overriddenFlags ["-masm=auto"]
  have assembled : ∃ site ∈ context.sites, ∃ file ∈ site.sources, file.language = .asm ∧
      Text.endsWith file.path ".S" = false ∧ file.misc.asm = ["-masm=auto"] ∧
      Ordered.append file.define (site.assemblyDefines context file) = [{ name := "FLAG" }] ∧
      file.define ++ site.assemblyDefines context file ≠ [] ∧
      context.misc.asm ++ site.assemblyFlags file =
        ["-masm=gnu", "-masm=armasm", "-masm=auto"] := by
    decide +kernel
  rcases assembled with
    ⟨site, member, file, source, assembly, unread, flags, symbols, defined, chain⟩
  rcases newest_flag_decides_dialect armSetting context rfl site member file source assembly unread
    defined with ⟨dialect, properties, -, said, -, options, -, -, decides⟩
  rw [chain] at decides
  have gnu : dialect = .gnu := by
    refine (decides ?_).mpr ⟨"-masm=auto", .inr rfl, by decide +kernel⟩
    unfold Ordered.Unbroken
    decide +kernel
  refine ⟨properties, said, ?_⟩
  rw [options, flags, symbols, gnu]
  decide +kernel

/-- A flag that is given again behind another one does not decide. -/
theorem repeated_flag_does_not_decide :
    ¬ ∀ (setting : Setting) (context : Context), setting.toolchain = "AC6" →
      ∀ site ∈ context.sites, ∀ file ∈ site.sources, file.language = .asm →
        Text.endsWith file.path ".S" = false →
        file.define ++ site.assemblyDefines context file ≠ [] →
        ∀ properties ∈ (Tree.build setting context).directives.filterMap Directive.properties?,
          properties.file = Path.anchor setting.root file.path →
          ∀ dialect : AssemblerDialect,
            properties.compileOptions = file.misc.asm ++ dialect.symbolFlags
              (Ordered.append file.define (site.assemblyDefines context file)) →
            (dialect = .gnu ↔ ∃ flag, AsksForGnu flag ∧
              Ordered.lastContaining (context.misc.asm ++ site.assemblyFlags file) "-masm" =
                some flag) := by
  intro always
  let context := overriddenFlags ["-masm=gnu"]
  have assembled : ∃ site ∈ context.sites, ∃ file ∈ site.sources, file.language = .asm ∧
      Text.endsWith file.path ".S" = false ∧ file.define ++ site.assemblyDefines context file ≠ [] ∧
      (∃ properties ∈ (Tree.build armSetting context).directives.filterMap Directive.properties?,
        properties.file = Path.anchor "project" file.path ∧
        properties.compileOptions = file.misc.asm ++ AssemblerDialect.arm.symbolFlags
          (Ordered.append file.define (site.assemblyDefines context file))) ∧
      Ordered.lastContaining (context.misc.asm ++ site.assemblyFlags file) "-masm" =
        some "-masm=gnu" := by
    decide +kernel
  rcases assembled with ⟨site, member, file, source, assembly, unread, defined,
    ⟨properties, set, path, options⟩, last⟩
  have decides := always armSetting context rfl site member file source assembly unread defined
    properties set path .arm options
  cases decides.mpr ⟨"-masm=gnu", .inl rfl, last⟩

end SolutionLists
