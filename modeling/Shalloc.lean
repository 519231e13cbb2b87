import Shalloc.Word
import Shalloc.Extent
import Shalloc.Nest
import Shalloc.Round
import Shalloc.Nofree.Defs
import Shalloc.Nofree.Exact
import Shalloc.Slab.Defs
import Shalloc.Slab.Layout
import Shalloc.Slab.StateMachine
import Shalloc.Region.Defs
import Shalloc.Region.AllocSize
import Shalloc.Region.Allocator
import Shalloc.Region.Forest
import Shalloc.Region.ForestStep
import Shalloc.Region.Cases
import Shalloc.Region.Chain
import Shalloc.Region.Simulation
import Shalloc.Region.Calls
import Shalloc.Region.Tree
import Shalloc.Region.Atomic
import Shalloc.Region.Ledger
import Shalloc.Region.Reset
import Shalloc.Region.Release
import Shalloc.Bump
import Shalloc.Space.Defs
import Shalloc.Space.Cases
import Shalloc.Space.Layout
import Shalloc.Space.Placement
import Shalloc.Space.Registry
import Shalloc.Space.Accounting
import Shalloc.Space.Inherit
import Shalloc.Space.Attach
import Shalloc.Region.Parent
import Shalloc.Region.Rule
import Shalloc.Runs.Chain
import Shalloc.Runs.Free
import Shalloc.Runs.Reset
import Shalloc.Mplite.Defs
import Shalloc.Mplite.Fresh
import Shalloc.Runs.Mplite
import Shalloc.Space.Private
import Shalloc.Space.Full
import Shalloc.Runs.SlabAttach
import Shalloc.Runs.SlabServe
import Shalloc.Runs.BuffSize
import Shalloc.Runs.Calloc
import Shalloc.Nofree.Align
import Shalloc.Slab.Index
import Shalloc.Buddy
import Shalloc.Links
import Shalloc.Mplite.Pool
import Shalloc.Runs.MpliteSize
import Shalloc.Space.PageMap
import Shalloc.Mplite.Sound
import Shalloc.Mplite.Returns
import Shalloc.Mplite.Run
import Shalloc.Space.Unmap
import Shalloc.Runs.Create
import Shalloc.Simple.Defs
import Shalloc.Circular
import Shalloc.Simple.List
import Shalloc.Simple.Bounds
import Shalloc.Runs.Restart
import Shalloc.Region.Info
import Shalloc.Runs.Info
import Shalloc.Region.Bytes
import Shalloc.Runs.Shared
import Shalloc.Runs.Nofree
import Shalloc.Runs.Nested
import Shalloc.Runs.MpliteHeap
import Shalloc.Runs.Orealloc
import Shalloc.Cells
import Shalloc.Tiles
import Shalloc.Tiny.Blocks
import Shalloc.Tiny.Check
import Shalloc.Tiny.Run
import Shalloc.Pages.Check
import Shalloc.Pages.Refused
import Shalloc.Pages.Huge
import Shalloc.Tiny.Buffer
