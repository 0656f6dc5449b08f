import LoadBear.ConservativeMerge
import LoadBear.ContainerEvidence
import LoadBear.EnumerationOrder
import LoadBear.Diagnosis
import LoadBear.ReferenceTracker
import LoadBear.TierStability
import LoadBear.Explanation
import LoadBear.TierReasons
import LoadBear.Bursts
import LoadBear.PublishedReading
import LoadBear.PackagePower
import LoadBear.DiskBaseline
import LoadBear.ContainerAnswers
import LoadBear.SharedMapping
import LoadBear.VerdictAuthority
import LoadBear.CoreLabels
import LoadBear.RunningList
import LoadBear.ProcessSampler
import LoadBear.Chunked
import LoadBear.SplitProcess
import LoadBear.ContainerList
import LoadBear.NestedNumbers
import LoadBear.RunningHeading
import LoadBear.DockerNames
import LoadBear.MatchLabel
import LoadBear.SampleMedian
import LoadBear.BaselineMedian
import LoadBear.StatusTool
import LoadBear.Topology
import LoadBear.HelperLoop
import LoadBear.SharedHistory
import LoadBear.SamplingLoad
import LoadBear.EngineListing
import LoadBear.Enabling
import LoadBear.DriverReading
