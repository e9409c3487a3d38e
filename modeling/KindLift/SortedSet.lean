/-! Sets of texts as sorted lists without repetitions. -/
namespace KindLift

/-- The members of a list in increasing order, each once. -/
def sortedSet (items : List String) : List String :=
  (items.mergeSort fun a b => (compare a b).isLE).eraseReps

end KindLift
