import SbllMalloc.Avl.Tree
import SbllMalloc.Avl.Map
import SbllMalloc.Avl.Height
import SbllMalloc.Avl.Range
import SbllMalloc.Avl.Dirty
import SbllMalloc.SharedHeap.Bits
import SbllMalloc.SharedHeap.State
import SbllMalloc.SharedHeap.Addr
import SbllMalloc.SharedHeap.Fault
import SbllMalloc.SharedHeap.Remap
import SbllMalloc.SharedHeap.Merge
import SbllMalloc.SharedHeap.Alloc
import SbllMalloc.SharedHeap.Step
import SbllMalloc.SharedHeap.Inv
import SbllMalloc.SharedHeap.StepInv
import SbllMalloc.SharedHeap.AllocInv
import SbllMalloc.SharedHeap.MergeInv
import SbllMalloc.SharedHeap.MergeLoop
import SbllMalloc.SharedHeap.Reach
import SbllMalloc.SharedHeap.MergeRef
import SbllMalloc.SharedHeap.Failure
import SbllMalloc.SharedHeap.Lifecycle
import SbllMalloc.SharedHeap.FreeLoop
import SbllMalloc.SharedHeap.Realloc
import SbllMalloc.SharedHeap.Control
import SbllMalloc.SharedHeap.ControlRuns
import SbllMalloc.SharedHeap.Index
import SbllMalloc.SharedHeap.SchedRuns
import SbllMalloc.SharedHeap.Footprint
import SbllMalloc.SharedHeap.Converge
import SbllMalloc.SharedHeap.Traversal
