import AnanicyRs.Platform.Cgroup.Protection
import AnanicyRs.Platform.Cgroup.SubtreeControl
import AnanicyRs.Platform.Cgroup.Process
import AnanicyRs.Platform.Cgroup.DelegatedRoot
import AnanicyRs.Platform.Cgroup.PidMove
import AnanicyRs.Platform.Mounts
import AnanicyRs.Platform.Cgroups
import AnanicyRs.Platform.Netlink
import AnanicyRs.Platform.Affinity.SetAffinity
import AnanicyRs.Platform.IoPriority
import AnanicyRs.Platform.LatencyNice
import AnanicyRs.Platform.Topology.LlcGrouping
import AnanicyRs.Bpf.Program
import AnanicyRs.Core.ConfigLines
import AnanicyRs.Core.CpuList
import AnanicyRs.Core.Interning
import AnanicyRs.Core.ResolvedCache
import AnanicyRs.Core.RuleApplication
import AnanicyRs.Core.RuleIntegers
import AnanicyRs.Core.RuleMerge
import AnanicyRs.Daemon.CgroupRules
import AnanicyRs.Daemon.Dump
import AnanicyRs.Daemon.Reload
import AnanicyRs.Daemon.Singleton
import AnanicyRs.Daemon.Threads
import AnanicyRs.Daemon.Exit
import AnanicyRs.Lib.Grouping
import AnanicyRs.Platform.Topology.Capacity
import AnanicyRs.Platform.Topology.Scan
import AnanicyRs.Platform.X3d
import AnanicyRs.Platform.ProcessInfo
import AnanicyRs.Platform.ExeFailures
import AnanicyRs.Daemon.OwnCgroup
import AnanicyRs.Platform.Linux
import AnanicyRs.Platform.TaskStates
import AnanicyRs.Platform.NetlinkSession
import AnanicyRs.Daemon.CgroupCreation
import AnanicyRs.Daemon.WorkLoop
import AnanicyRs.Daemon.OnLinux
import AnanicyRs.Daemon.TopologyAliases
import AnanicyRs.Daemon.TaskRuns
import AnanicyRs.Daemon.FilteredRuns
import AnanicyRs.Daemon.Monitor
import AnanicyRs.Daemon.Restarts
import AnanicyRs.Daemon.ReloadRequest
import AnanicyRs.Daemon.Autogroup
