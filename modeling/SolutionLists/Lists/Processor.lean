import SolutionLists.Description.Context

namespace SolutionLists.Processor

/-! A processor as variables of the generated lists. Values outside the tables are
left out. -/

def fpuTable : List (String × String) :=
  [("dp", "DP_FPU"), ("sp", "SP_FPU"), ("off", "NO_FPU")]

def dspTable : List (String × String) :=
  [("on", "DSP"), ("off", "NO_DSP")]

def secureTable : List (String × String) :=
  [("secure", "Secure"), ("non-secure", "Non-secure")]

def mveTable : List (String × String) :=
  [("fp", "FP_FVE"), ("int", "MVE"), ("off", "NO_MVE")]

def branchProtectionTable : List (String × String) :=
  [("bti", "BTI"), ("bti-signret", "BTI_SIGNRET"), ("off", "NO_BRANCHPROT")]

def byteOrderTable : List (String × String) :=
  [("big", "Big-endian"), ("little", "Little-endian")]

/-- The variables with their values; the core always comes first. -/
def assignments (processor : Processor) : List (String × String) :=
  let rows :=
    [("FPU", fpuTable.lookup processor.fpu),
      ("DSP", dspTable.lookup processor.dsp),
      ("SECURE", secureTable.lookup processor.trustzone),
      ("MVE", mveTable.lookup processor.mve),
      ("BRANCHPROT", branchProtectionTable.lookup processor.branchProtection),
      ("BYTE_ORDER", byteOrderTable.lookup processor.endian)]
  ("CPU", processor.core) ::
    rows.filterMap fun (name, value) => value.map fun value => (name, value)

end SolutionLists.Processor
