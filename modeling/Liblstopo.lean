import Liblstopo.Basic
import Liblstopo.Libc
import Liblstopo.Topology
import Liblstopo.Grouping.MinDistance
import Liblstopo.Grouping.Clustering
import Liblstopo.Grouping.Engine
import Liblstopo.Grouping.Hierarchy
import Liblstopo.Grouping.Blocks
import Liblstopo.Distances.Store
import Liblstopo.Distances.Parse
import Liblstopo.Distances.Resolve
import Liblstopo.Distances.Lifecycle
import Liblstopo.Distances.Normalize
import Liblstopo.Distances.Covering
import Liblstopo.Grouping.Shorthand
import Liblstopo.Grouping.NestedCalls
import Liblstopo.Lstopo.Collapse
import Liblstopo.Lstopo.Core
import Liblstopo.Lstopo.Example
