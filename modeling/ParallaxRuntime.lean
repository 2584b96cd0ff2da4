import ParallaxRuntime.Pool.Isolation
import ParallaxRuntime.Pool.Check
import ParallaxRuntime.Arena.PoolBacked
import ParallaxRuntime.Arena.Conservation
import ParallaxRuntime.Pool.Realloc
import ParallaxRuntime.Shim.Fallback
import ParallaxRuntime.Shim.Alignment
import ParallaxRuntime.Unified.Allocator
import ParallaxRuntime.Launcher.KeptCount
import ParallaxRuntime.Launcher.Reduce
import ParallaxRuntime.Launcher.Sort
import ParallaxRuntime.Launcher.Session
import ParallaxRuntime.Launcher.Migration
import ParallaxRuntime.Funnels.Padding
import ParallaxRuntime.Launcher.Schedule
import ParallaxRuntime.Launcher.Argminmax
import ParallaxRuntime.Stdpar.Reduce
import ParallaxRuntime.Stdpar.TransformReduce
import ParallaxRuntime.Elementwise.Bindings
import ParallaxRuntime.Elementwise.Captures
import ParallaxRuntime.Elementwise.Coverage
import ParallaxRuntime.Elementwise.StagedLaunch
import ParallaxRuntime.Elementwise.Coherence
import ParallaxRuntime.Elementwise.InFlight
import ParallaxRuntime.Funnels.Release
import ParallaxRuntime.Funnels.Correct
import ParallaxRuntime.Elementwise.Offsets
import ParallaxRuntime.Vulkan.Registry
import ParallaxRuntime.Vulkan.Runtime
import ParallaxRuntime.Launcher.Isolation
import ParallaxRuntime.Funnels.Programs
import ParallaxRuntime.Launcher.FirstMatch
import ParallaxRuntime.Launcher.Relocation
import ParallaxRuntime.Launcher.ReduceLanes
import ParallaxRuntime.Launcher.ScanLanes
